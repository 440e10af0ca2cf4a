import BlockScript.Proofs.Discipline

/-!
# Watching an evaluation

Which operators an evaluation applies, which values it stores and passes on,
and which errors it raises, does not all show in its outcome. A watched
evaluation tells a monitor of each such act before it happens, and leaves it to
the monitor to go on. If all that a discipline permits is nothing to the
monitor, then the watched evaluation of a checked statement is the plain one:
no other act ever happens.
-/

namespace BlockScript

inductive Act where
  | applyBinary (operator : Bytes) (left right : Value)
  | applyUnary (operator : Bytes) (operand : Value)
  | applyLogical (operator : Bytes)
  | askType (value : Value)
  | store (value : Value)
  | pass (value : Value)
  | raise (error : RuntimeError)

abbrev Monitor (σ : Type) := Act → Eval σ Unit

/-! ## Watched evaluation -/

namespace Watched

variable {σ α : Type} (watch : Monitor σ)

def watchAll : List Act → Eval σ Unit
  | [] => return ()
  | act :: acts => do
    watch act
    watchAll acts

def raise (error : RuntimeError) : Eval σ α := do
  watch (.raise error)
  Eval.fail error

/-- Tells of the error that the next operation ends with, if it does. -/
def announce : Except RuntimeError α → Eval σ Unit
  | .ok _ => return ()
  | .error error => watch (.raise error)

def ofExcept (r : Except RuntimeError α) : Eval σ α := do
  announce watch r
  Eval.ofExcept r

def declare (s : ScopeId) (name : Name) (value : Value) (constant : Bool) : Eval σ Value := do
  watch (.store value)
  announce watch ((← get).store.declarable s name)
  Eval.declare s name value constant

def assign (s : ScopeId) (name : Name) (value : Value) : Eval σ Value := do
  watch (.store value)
  announce watch ((← get).store.assignable s name)
  Eval.assign s name value

def lookup (s : ScopeId) (name : Name) : Eval σ Value := do
  announce watch ((← get).store.lookup s name)
  Eval.lookup s name

-- The value is handed on: it is the plain operation that fails where a boolean is wanted.
def wanted (mismatch : ValueType → Mismatch) (exprs : ExprEvaluator σ) : ExprEvaluator σ := fun e s => do
  match ← exprs e s with
  | .boolean b => return .boolean b
  | value =>
    watch (.askType value)
    watch (.raise (.typeMismatch (mismatch value.type)))
    return value

def bindAll (s : ScopeId) : List (Name × Value) → Eval σ Unit
  | [] => return ()
  | (name, value) :: rest => do
    let _ ← declare watch s name value false
    bindAll s rest

def invoke (eval : StmtEvaluator σ) (f : Closure) (arguments : List Value) : Eval σ Value := do
  watchAll watch (arguments.map .pass)
  if arguments.length ≠ f.parameters.length then
    raise watch (.wrongArgumentCount f.name f.parameters.length arguments.length)
  else
    let s ← Eval.newScope f.scope?
    bindAll watch s (f.parameters.zip arguments)
    Eval.record (.call f.name (← Eval.depth s))
    Eval.runIn eval f.body s

def exec (exprs : ExprEvaluator σ) : (bound : Nat) → StmtEvaluator σ
  | 0, _, _ => throw .exhausted
  | bound + 1, stmt, s =>
    match stmt with
    | .program body => Eval.runIn (exec exprs bound) body s
    | .declare kind name value => do
      let value ← Eval.initialValue exprs value s
      Eval.record (.declare name kind (← Eval.depth s))
      declare watch s name value kind.isConstant
    | .function name parameters body => do
      Eval.record (.declareFunction name (← Eval.depth s))
      declare watch s name (.function ⟨name, parameters, .declaredIn s, body⟩) true
    | .ifElse check body arms otherwise => do
      let branch ← Eval.chooseBranch (wanted watch (.condition .conditional) exprs) s otherwise ((check, body) :: arms)
      Eval.runBranch (exec exprs bound) branch s
    | .whileLoop check body => do
      if ← Eval.condition (wanted watch (.condition .loop) exprs) .loop check s then
        let _ ← Eval.runBlock (exec exprs bound) body s
        exec exprs bound (.whileLoop check body) s
      else return .null
    | .expr e => exprs e s
    | .missing => raise watch (.unsupportedStatement missingText)
    | .foreign type => raise watch (.unsupportedStatement (bracketed type))

def evalExpr : (bound : Nat) → ExprEvaluator σ
  | 0, _, _ => throw .exhausted
  | bound + 1, e, s =>
    match e with
    | .number value => return .number value
    | .string value => return .string value
    | .identifier name => lookup watch s name
    | .assign name value => do
      let value ← evalExpr bound value s
      assign watch s name value
    | .binary operator left right => do
      let x ← evalExpr bound left s
      let y ← evalExpr bound right s
      watch (.applyBinary operator.lexeme x y)
      ofExcept watch (Operator.applyBinary operator.lexeme x y)
    | .logical operator left right => do
      watch (.applyLogical operator.lexeme)
      match LogicalOp.ofLexeme? operator.lexeme with
      | some op => Eval.logical (wanted watch (.logical op) (evalExpr bound)) op left right s
      | none => raise watch (.typeMismatch (.unknownLogical operator.lexeme))
    | .unary operator operand => do
      let x ← evalExpr bound operand s
      watch (.applyUnary operator.lexeme x)
      ofExcept watch (Operator.applyUnary operator.lexeme x)
    | .call callee arguments => do
      let f ← evalExpr bound callee s
      let values ← Eval.evalAll (evalExpr bound) s arguments
      match f with
      | .function f => invoke watch (exec watch (evalExpr bound) bound) f values
      | value =>
        watch (.askType value)
        raise watch (.typeMismatch (.notCallable value.type))
    | .missing => raise watch (.unsupportedStatement missingText)
    | .foreign type => raise watch (.unsupportedStatement (bracketed type))

def evaluate (bound : Nat) : StmtEvaluator σ := exec watch (evalExpr watch bound) bound

/-! ### Nobody watching -/

def idle : Monitor σ := fun _ => pure ()

theorem announce_idle (r : Except RuntimeError α) : announce (σ := σ) idle r = pure () := by
  cases r <;> rfl

theorem ofExcept_idle (r : Except RuntimeError α) : ofExcept (σ := σ) idle r = Eval.ofExcept r := by
  rw [ofExcept, announce_idle]
  rfl

theorem declare_idle (s : ScopeId) (name : Name) (value : Value) (constant : Bool) :
    declare (σ := σ) idle s name value constant = Eval.declare s name value constant := by
  simp only [declare, announce_idle]
  rfl

theorem assign_idle (s : ScopeId) (name : Name) (value : Value) :
    assign (σ := σ) idle s name value = Eval.assign s name value := by
  simp only [assign, announce_idle]
  rfl

theorem lookup_idle (s : ScopeId) (name : Name) : lookup (σ := σ) idle s name = Eval.lookup s name := by
  simp only [lookup, announce_idle]
  rfl

theorem wanted_idle (mismatch : ValueType → Mismatch) (exprs : ExprEvaluator σ) :
    wanted idle mismatch exprs = exprs := by
  funext e s w
  change (wanted idle mismatch exprs e s).run w = (exprs e s).run w
  rw [wanted, Eval.run_bind]
  cases (exprs e s).run w with
  | error halt w' => rfl
  | ok v w' => cases v <;> rfl

theorem watchAll_idle (acts : List Act) : watchAll (σ := σ) idle acts = pure () := by
  induction acts with
  | nil => rfl
  | cons act acts ih => rw [watchAll, ih]; rfl

theorem bindAll_idle (s : ScopeId) (bindings : List (Name × Value)) :
    bindAll (σ := σ) idle s bindings = Eval.bindAll s bindings := by
  induction bindings with
  | nil => rfl
  | cons binding bindings ih => rw [bindAll, Eval.bindAll, declare_idle, ih]

theorem invoke_idle (eval : StmtEvaluator σ) (f : Closure) (arguments : List Value) :
    invoke idle eval f arguments = Eval.invoke eval f arguments := by
  simp only [invoke, watchAll_idle, bindAll_idle]
  rfl

theorem exec_idle (exprs : ExprEvaluator σ) (bound : Nat) : exec idle exprs bound = Eval.exec exprs bound := by
  induction bound with
  | zero => rfl
  | succ bound ih =>
    funext stmt s
    cases stmt <;> simp only [exec, Eval.exec, ih, wanted_idle, declare_idle] <;> rfl

theorem evalExpr_idle (bound : Nat) : evalExpr (σ := σ) idle bound = Eval.evalExpr bound := by
  induction bound with
  | zero => rfl
  | succ bound ih =>
    funext e s
    cases e <;>
      simp only [evalExpr, Eval.evalExpr, ih, exec_idle, wanted_idle, invoke_idle, lookup_idle, assign_idle,
        ofExcept_idle] <;> rfl

theorem evaluate_idle (bound : Nat) : evaluate (σ := σ) idle bound = Eval.evaluate bound := by
  rw [evaluate, Eval.evaluate, evalExpr_idle, exec_idle]

end Watched

/-! ## Permitted acts -/

/-- The acts in `P` are all that a discipline lets happen. -/
structure Discipline.Permits (D : Discipline) (P : Act → Prop) : Prop where
  askType {h v} : D.value h v → P (.askType v)
  store {h v} : D.value h v → P (.store v)
  pass {h v} : D.value h v → P (.pass v)
  function {h s Γ name parameters body} : D.scope h s Γ → D.stmt Γ (.function name parameters body) →
    P (.store (.function ⟨name, parameters, .declaredIn s, body⟩))
  binary {h Γ t l r x y} : D.expr Γ (.binary t l r) → D.value h x → D.value h y → P (.applyBinary t.lexeme x y)
  unary {h Γ t e x} : D.expr Γ (.unary t e) → D.value h x → P (.applyUnary t.lexeme x)
  logical {Γ t l r} : D.expr Γ (.logical t l r) → P (.applyLogical t.lexeme)
  raise {e} : D.stops e → P (.raise e)

namespace Discipline

variable (D : Discipline) {σ α β : Type}

def ExprAgrees (exprs' exprs : ExprEvaluator σ) : Prop :=
  ∀ Γ e s (w : World σ), D.inv w.store → D.scope w.store s Γ → D.expr Γ e → (exprs' e s).run w = (exprs e s).run w

def StmtAgrees (eval' eval : StmtEvaluator σ) : Prop :=
  ∀ Γ stmt s (w : World σ), D.inv w.store → D.scope w.store s Γ → D.stmt Γ stmt →
    (eval' stmt s).run w = (eval stmt s).run w

variable {D} {w : World σ} {s : ScopeId} {Γ : D.Context} {exprs exprs' : ExprEvaluator σ}
  {eval eval' : StmtEvaluator σ} {rel : Store → Store → Prop} {m m' : Eval σ α} {k k' : α → Eval σ β}
  {Q : α → Store → Prop}

theorem Ensures.run_bind_eq (hens : D.Ensures rel m w Q) (hm : m'.run w = m.run w)
    (hk : ∀ a w', D.inv w'.store → rel w.store w'.store → Q a w'.store → (k' a).run w' = (k a).run w') :
    (m' >>= k').run w = (m >>= k).run w := by
  unfold Ensures at hens
  rw [Eval.run_bind, Eval.run_bind, hm]
  cases hrun : m.run w with
  | error halt w' => rfl
  | ok a w' =>
    simp only [hrun] at hens
    obtain ⟨hi, hr, hq⟩ := hens
    exact hk a w' hi hr hq

/-! ## What the evaluators are built from -/

theorem sequence_agrees (hagree : D.StmtAgrees eval' eval) (hsound : D.StmtSound eval) (body : Block)
    (hi : D.inv w.store) (hs : D.scope w.store s Γ) (hb : D.block Γ body) (last : Value) :
    (Eval.sequence eval' s last body).run w = (Eval.sequence eval s last body).run w := by
  induction body generalizing w Γ last with
  | nil => rfl
  | cons stmt body ih =>
    refine (hsound Γ stmt s w hi hs hb.1).run_bind_eq (hagree Γ stmt s w hi hs hb.1) ?_
    intro v w' hi' _ hv
    exact ih hi' hv.2 hb.2 v

theorem runIn_agrees (hagree : D.StmtAgrees eval' eval) (hsound : D.StmtSound eval) (body : Block)
    (hi : D.inv w.store) (hs : D.scope w.store s Γ) (hb : D.block Γ body) :
    (Eval.runIn eval' body s).run w = (Eval.runIn eval body s).run w :=
  sequence_agrees (w := { w with trace := w.trace.push (.enterBlock (w.store.depth s)) }) hagree hsound body hi hs hb
    .null

theorem runBlock_agrees (hagree : D.StmtAgrees eval' eval) (hsound : D.StmtSound eval) (body : Block)
    (hi : D.inv w.store) (hs : D.scope w.store s Γ) (hb : D.block (D.inner Γ) body) (ho : D.opens Γ) :
    (Eval.runBlock eval' body s).run w = (Eval.runBlock eval body s).run w := by
  obtain ⟨hi', hs'⟩ := D.enter hi hs ho
  exact runIn_agrees (w := { w with store := w.store.add (.empty (some s)) }) hagree hsound body hi' hs' hb

theorem runBranch_agrees (hagree : D.StmtAgrees eval' eval) (hsound : D.StmtSound eval) {branch : Option Block}
    (hi : D.inv w.store) (hs : D.scope w.store s Γ) (hb : ∀ body, branch = some body → D.block (D.inner Γ) body)
    (ho : D.opens Γ) :
    (Eval.runBranch eval' branch s).run w = (Eval.runBranch eval branch s).run w := by
  cases branch with
  | none => rfl
  | some body =>
    have hrun := runBlock_agrees hagree hsound body hi hs (hb body rfl) ho
    simp only [Eval.runBranch, Eval.run_bind, hrun]

theorem condition_agrees (hagree : D.ExprAgrees exprs' exprs) (construct : Construct) {check : Expr}
    (hi : D.inv w.store) (hs : D.scope w.store s Γ) (hc : D.expr Γ check) :
    (Eval.condition exprs' construct check s).run w = (Eval.condition exprs construct check s).run w := by
  simp only [Eval.condition, Eval.run_bind, hagree Γ check s w hi hs hc]

theorem chooseBranch_agrees (hagree : D.ExprAgrees exprs' exprs) (hsound : D.ExprSound exprs)
    (otherwise : Option Block) (arms : List (Expr × Block)) (ha : ∀ arm ∈ arms, D.expr Γ arm.1)
    (hi : D.inv w.store) (hs : D.scope w.store s Γ) :
    (Eval.chooseBranch exprs' s otherwise arms).run w = (Eval.chooseBranch exprs s otherwise arms).run w := by
  induction arms generalizing w with
  | nil => rfl
  | cons arm arms ih =>
    have hcheck := ha arm List.mem_cons_self
    refine (condition_sound hsound .conditional hi hs hcheck).run_bind_eq
      (condition_agrees hagree .conditional hi hs hcheck) ?_
    intro b w' hi' hg _
    cases b with
    | true => rfl
    | false => exact ih (fun arm h => ha arm (List.mem_cons_of_mem _ h)) hi' (D.scope_mono hg hs)

theorem initialValue_agrees (hagree : D.ExprAgrees exprs' exprs) (value : Option Expr) (hi : D.inv w.store)
    (hs : D.scope w.store s Γ) (he : ∀ e, value = some e → D.expr Γ e) :
    (Eval.initialValue exprs' value s).run w = (Eval.initialValue exprs value s).run w := by
  cases value with
  | none => rfl
  | some e => exact hagree Γ e s w hi hs (he e rfl)

theorem operand_agrees (hagree : D.ExprAgrees exprs' exprs) (op : LogicalOp) {e : Expr} (hi : D.inv w.store)
    (hs : D.scope w.store s Γ) (he : D.expr Γ e) :
    (Eval.operand exprs' op e s).run w = (Eval.operand exprs op e s).run w := by
  simp only [Eval.operand, Eval.run_bind, hagree Γ e s w hi hs he]

theorem logical_agrees (hagree : D.ExprAgrees exprs' exprs) (hsound : D.ExprSound exprs) (op : LogicalOp)
    {left right : Expr} (hi : D.inv w.store) (hs : D.scope w.store s Γ) (hl : D.expr Γ left) (hr : D.expr Γ right) :
    (Eval.logical exprs' op left right s).run w = (Eval.logical exprs op left right s).run w := by
  refine (operand_sound hsound op hi hs hl).run_bind_eq (operand_agrees hagree op hi hs hl) ?_
  intro x w' hi' hg _
  split
  · rfl
  · simp only [Eval.run_bind, operand_agrees hagree op hi' (D.scope_mono hg hs) hr]

theorem evalAll_agrees (hagree : D.ExprAgrees exprs' exprs) (hsound : D.ExprSound exprs) (es : List Expr)
    (hi : D.inv w.store) (hs : D.scope w.store s Γ) (he : ∀ e ∈ es, D.expr Γ e) :
    (Eval.evalAll exprs' s es).run w = (Eval.evalAll exprs s es).run w := by
  induction es generalizing w with
  | nil => rfl
  | cons e es ih =>
    have hhead := he e List.mem_cons_self
    refine (hsound Γ e s w hi hs hhead).run_bind_eq (hagree Γ e s w hi hs hhead) ?_
    intro v w' hi' hg _
    simp only [Eval.run_bind, ih hi' (D.scope_mono hg hs) fun e h => he e (List.mem_cons_of_mem _ h)]

theorem stops_declare {h : Store} {kind : DeclKind} {name : Name} {value : Option Expr} {v : Value} {e : RuntimeError}
    (hi : D.inv h) (hs : D.scope h s Γ) (hstmt : D.stmt Γ (.declare kind name value)) (hv : D.value h v)
    (he : h.declarable s name = .error e) : D.stops e := by
  have hd := D.declare hi hs hstmt hv
  rwa [he] at hd

theorem stops_function {h : Store} {name : Name} {parameters : List Name} {body : Block} {e : RuntimeError}
    (hi : D.inv h) (hs : D.scope h s Γ) (hstmt : D.stmt Γ (.function name parameters body))
    (he : h.declarable s name = .error e) : D.stops e := by
  have hd := D.function hi hs hstmt
  simpa only [he] using hd

/-! ## The monitor has nothing to do -/

section

variable {P : Act → Prop} {watch : Monitor σ} (hwatch : ∀ act, P act → watch act = pure ())

include hwatch

theorem run_watch {act : Act} (ha : P act) (l : Eval σ β) : (do watch act; l).run w = l.run w := by
  rw [hwatch act ha]
  rfl

theorem run_watchAll {acts : List Act} (ha : ∀ act ∈ acts, P act) (l : Eval σ β) :
    (do Watched.watchAll watch acts; l).run w = l.run w := by
  have hnone : Watched.watchAll watch acts = pure () := by
    induction acts with
    | nil => rfl
    | cons act acts ih =>
      rw [Watched.watchAll, hwatch act (ha act List.mem_cons_self)]
      exact ih fun act h => ha act (List.mem_cons_of_mem _ h)
  rw [hnone]
  rfl

theorem run_announce {r : Except RuntimeError α} (hr : ∀ e, r = .error e → P (.raise e)) (l : Eval σ β) :
    (do Watched.announce watch r; l).run w = l.run w := by
  cases r with
  | ok a => rfl
  | error e => exact run_watch hwatch (hr e rfl) l

variable (hP : D.Permits P)

include hP

theorem raise_agrees {e : RuntimeError} (he : D.stops e) :
    (Watched.raise watch e : Eval σ α).run w = (Eval.fail e : Eval σ α).run w := run_watch hwatch (hP.raise he) _

theorem ofExcept_agrees {r : Except RuntimeError α} (hr : ∀ e, r = .error e → D.stops e) :
    (Watched.ofExcept watch r).run w = (Eval.ofExcept r).run w :=
  run_announce hwatch (fun e he => hP.raise (hr e he)) _

-- The store that an announcement looks at is the one that the operation then meets.
theorem lookup_agrees {name : Name} (hi : D.inv w.store) (hs : D.scope w.store s Γ) (he : D.expr Γ (.identifier name)) :
    (Watched.lookup watch s name).run w = (Eval.lookup s name).run w := by
  have hl := D.lookup hi hs he
  refine run_announce (r := w.store.lookup s name) hwatch (fun e herr => hP.raise ?_) _
  rwa [herr] at hl

theorem assign_agrees {name : Name} {e : Expr} {v : Value} (hi : D.inv w.store) (hs : D.scope w.store s Γ)
    (he : D.expr Γ (.assign name e)) (hv : D.value w.store v) :
    (Watched.assign watch s name v).run w = (Eval.assign s name v).run w := by
  have ha := D.assign hi hs he hv
  refine (run_watch hwatch (hP.store hv) _).trans ?_
  refine run_announce (r := w.store.assignable s name) hwatch (fun e herr => hP.raise ?_) _
  rwa [herr] at ha

theorem declare_agrees {name : Name} {v : Value} (constant : Bool) (hv : P (.store v))
    (hd : ∀ e, w.store.declarable s name = .error e → D.stops e) :
    (Watched.declare watch s name v constant).run w = (Eval.declare s name v constant).run w := by
  refine (run_watch hwatch hv _).trans ?_
  exact run_announce (r := w.store.declarable s name) hwatch (fun e he => hP.raise (hd e he)) _

theorem wanted_agrees {mismatch : ValueType → Mismatch}
    (hstops : ∀ {h v}, D.value h v → v.type ≠ .boolean → D.stops (.typeMismatch (mismatch v.type)))
    (hagree : D.ExprAgrees exprs' exprs) (hsound : D.ExprSound exprs) :
    D.ExprAgrees (Watched.wanted watch mismatch exprs') exprs := by
  intro Γ e s w hi hs he
  have hplain : (exprs e s).run w = (exprs e s >>= fun v => Pure.pure v).run w := by
    rw [Eval.run_bind]
    cases (exprs e s).run w <;> rfl
  rw [hplain]
  refine (hsound Γ e s w hi hs he).run_bind_eq (hagree Γ e s w hi hs he) ?_
  intro v w' _ _ hv
  cases v with
  | boolean b => rfl
  | _ =>
    refine (run_watch hwatch (hP.askType hv) _).trans ?_
    exact run_watch hwatch (hP.raise (hstops hv (by simp [Value.type]))) _

theorem bindAll_agrees (names : List Name) (values : List Value) (hlen : values.length = names.length)
    (hi : D.inv w.store) (hs : D.scope w.store s Γ)
    (hb : D.block Γ (names.map fun name => .declare .var name none)) (hv : ∀ v ∈ values, D.value w.store v) :
    (Watched.bindAll watch s (names.zip values)).run w = (Eval.bindAll s (names.zip values)).run w := by
  induction names generalizing values w Γ with
  | nil => rfl
  | cons name names ih =>
    cases values with
    | nil => cases hlen
    | cons v values =>
      have hhead := hv v List.mem_cons_self
      refine (declare_sound .var hi hs hb.1 hhead).run_bind_eq
        (declare_agrees hwatch hP false (hP.store hhead) fun e => stops_declare hi hs hb.1 hhead) ?_
      intro _ w' hi' hg hs'
      exact ih values (Nat.succ.inj hlen) hi' hs'.2 hb.2 fun u hu => D.value_mono hg (hv u (List.mem_cons_of_mem _ hu))

theorem invoke_agrees (hagree : D.StmtAgrees eval' eval) (hsound : D.StmtSound eval) {f : Closure}
    {arguments : List Value} (hi : D.inv w.store) (hf : D.value w.store (.function f))
    (ha : ∀ v ∈ arguments, D.value w.store v) :
    (Watched.invoke watch eval' f arguments).run w = (Eval.invoke eval f arguments).run w := by
  have hpass : ∀ act ∈ arguments.map Act.pass, P act := by
    intro act hact
    obtain ⟨v, hv, rfl⟩ := List.mem_map.mp hact
    exact hP.pass (ha v hv)
  rw [Watched.invoke, run_watchAll hwatch hpass]
  unfold Eval.invoke
  split
  · exact raise_agrees hwatch hP (D.stops_arity ..)
  · rename_i hlen
    obtain ⟨hi', Γ, hs, hb⟩ := D.call hi hf
    obtain ⟨hparams, hbody⟩ := (D.block_append Γ _ _).mp hb
    have hgrow : D.growsIn w.store.size w.store (w.store.add (.empty f.scope?)) :=
      D.growsIn_of_grows (D.leave (D.growsIn_of_grows (D.grows_refl _)))
    have hvalues : ∀ v ∈ arguments, D.value (w.store.add (.empty f.scope?)) v := fun v hv =>
      D.value_mono hgrow (ha v hv)
    have hlen := Decidable.not_not.mp hlen
    refine (bindAll_sound (w := { w with store := w.store.add (.empty f.scope?) }) f.parameters arguments hlen hi' hs
      hparams hvalues).run_bind_eq (bindAll_agrees hwatch hP f.parameters arguments hlen hi' hs hparams hvalues) ?_
    intro _ w' hi'' _ hs'
    exact runIn_agrees (w := { w' with trace := w'.trace.push (.call f.name (w'.store.depth w.store.size)) }) hagree
      hsound f.body hi'' hs' hbody

theorem exec_agrees (hagree : D.ExprAgrees exprs' exprs) (hsound : D.ExprSound exprs) (bound : Nat) :
    D.StmtAgrees (Watched.exec watch exprs' bound) (Eval.exec exprs bound) := by
  have hwanted : ∀ construct, D.ExprAgrees (Watched.wanted watch (.condition construct) exprs') exprs := fun _ =>
    wanted_agrees hwatch hP D.stops_condition hagree hsound
  induction bound with
  | zero => exact fun _ _ _ _ _ _ _ => rfl
  | succ bound ih =>
    have hexec := exec_sound hsound bound
    intro Γ stmt s w hi hs hstmt
    cases stmt with
    | program body => exact runIn_agrees ih hexec body hi hs (D.stmt_program hstmt)
    | declare kind name value =>
      have he : ∀ e, value = some e → D.expr Γ e := fun e h => D.stmt_declare (h ▸ hstmt)
      refine (initialValue_sound hsound value hi hs he).run_bind_eq (initialValue_agrees hagree value hi hs he) ?_
      intro v w' hi' hg hv
      exact declare_agrees (w := { w' with trace := w'.trace.push (.declare name kind (w'.store.depth s)) }) hwatch hP
        kind.isConstant (hP.store hv) fun e => stops_declare hi' (D.scope_mono hg hs) hstmt hv
    | function name parameters body =>
      exact declare_agrees (w := { w with trace := w.trace.push (.declareFunction name (w.store.depth s)) }) hwatch hP
        true (hP.function hs hstmt) fun e => stops_function hi hs hstmt
    | ifElse check body arms otherwise =>
      obtain ⟨harms, hother⟩ := D.stmt_ifElse hstmt
      refine (chooseBranch_sound hsound hother _ harms hi hs).run_bind_eq
        (chooseBranch_agrees (hwanted .conditional) hsound otherwise _ (fun arm h => (harms arm h).1) hi hs) ?_
      intro branch w' hi' hg hb
      exact runBranch_agrees ih hexec hi' (D.scope_mono hg hs) hb (D.stmt_opens hstmt rfl)
    | whileLoop check body =>
      obtain ⟨hcheck, hbody⟩ := D.stmt_while hstmt
      refine (condition_sound hsound .loop hi hs hcheck).run_bind_eq
        (condition_agrees (hwanted .loop) .loop hi hs hcheck) ?_
      intro b w' hi' hg _
      have hs' := D.scope_mono hg hs
      cases b with
      | false => rfl
      | true =>
        have ho := D.stmt_opens hstmt rfl
        refine (runBlock_sound hexec body hi' hs' hbody ho).run_bind_eq
          (runBlock_agrees ih hexec body hi' hs' hbody ho) ?_
        intro _ w'' hi'' hg' _
        exact ih Γ (.whileLoop check body) s w'' hi'' (D.scope_mono hg' hs') hstmt
    | expr e => exact hagree Γ e s w hi hs (D.stmt_expr hstmt)
    | missing => exact raise_agrees hwatch hP (D.stops_missing (.inr hstmt))
    | foreign type => exact raise_agrees hwatch hP (D.stops_foreign (.inr hstmt))

theorem evalExpr_agrees (bound : Nat) : D.ExprAgrees (Watched.evalExpr watch bound) (Eval.evalExpr bound) := by
  induction bound with
  | zero => exact fun _ _ _ _ _ _ _ => rfl
  | succ bound ih =>
    have hsound := evalExpr_sound (D := D) (σ := σ) bound
    intro Γ e s w hi hs he
    cases e with
    | number | string => rfl
    | identifier name => exact lookup_agrees hwatch hP hi hs he
    | assign name value =>
      have hvalue := D.expr_assign he
      refine (hsound Γ value s w hi hs hvalue).run_bind_eq (ih Γ value s w hi hs hvalue) ?_
      intro v w' hi' hg hv
      exact assign_agrees hwatch hP hi' (D.scope_mono hg hs) he hv
    | binary operator left right =>
      obtain ⟨hl, hr⟩ := D.expr_binary he
      refine (hsound Γ left s w hi hs hl).run_bind_eq (ih Γ left s w hi hs hl) ?_
      intro x w' hi' hg hx
      have hs' := D.scope_mono hg hs
      refine (hsound Γ right s w' hi' hs' hr).run_bind_eq (ih Γ right s w' hi' hs' hr) ?_
      intro y w'' _ hg' hy
      have hx' := D.value_mono (D.growsIn_of_grows (s := s) hg') hx
      refine (run_watch hwatch (hP.binary he hx' hy) _).trans ?_
      exact ofExcept_agrees hwatch hP fun _ => D.stops_binary he hx' hy
    | logical operator left right =>
      obtain ⟨hl, hr⟩ := D.expr_logical he
      refine (run_watch hwatch (hP.logical he) _).trans ?_
      simp only [Eval.evalExpr]
      cases hop : LogicalOp.ofLexeme? operator.lexeme with
      | some op => exact logical_agrees (wanted_agrees hwatch hP D.stops_operand ih hsound) hsound op hi hs hl hr
      | none => exact raise_agrees hwatch hP (D.stops_logical he hop)
    | unary operator operand =>
      have hoperand := D.expr_unary he
      refine (hsound Γ operand s w hi hs hoperand).run_bind_eq (ih Γ operand s w hi hs hoperand) ?_
      intro x w' _ _ hx
      refine (run_watch hwatch (hP.unary he hx) _).trans ?_
      exact ofExcept_agrees hwatch hP fun _ => D.stops_unary he hx
    | call callee arguments =>
      obtain ⟨hcallee, hargs⟩ := D.expr_call he
      refine (hsound Γ callee s w hi hs hcallee).run_bind_eq (ih Γ callee s w hi hs hcallee) ?_
      intro f w' hi' hg hf
      have hs' := D.scope_mono hg hs
      refine (evalAll_sound hsound arguments hi' hs' hargs).run_bind_eq
        (evalAll_agrees ih hsound arguments hi' hs' hargs) ?_
      intro values w'' hi'' hg' hvs
      have hf' := D.value_mono (D.growsIn_of_grows (s := s) hg') hf
      cases f with
      | function f =>
        exact invoke_agrees hwatch hP (exec_agrees hwatch hP ih hsound bound) (exec_sound hsound bound) hi'' hf' hvs
      | _ =>
        refine (run_watch hwatch (hP.askType hf') _).trans ?_
        exact raise_agrees hwatch hP (D.stops_callee hf' (by simp [Value.type]))
    | missing => exact raise_agrees hwatch hP (D.stops_missing (.inl he))
    | foreign type => exact raise_agrees hwatch hP (D.stops_foreign (.inl he))

theorem evaluate_agrees (bound : Nat) : D.StmtAgrees (Watched.evaluate watch bound) (Eval.evaluate bound) :=
  exec_agrees hwatch hP (evalExpr_agrees hwatch hP bound) (evalExpr_sound bound) bound

end

end Discipline

end BlockScript
