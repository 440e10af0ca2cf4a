import BlockScript.Proofs.Monitoring
import BlockScript.Session

/-!
# Nothing happens after an error

Statements are evaluated over any evaluator of expressions, which may answer as
it likes and remember all that it was asked. A journaled evaluation does what
the plain one does, and writes down each question to that evaluator with its
answer, and each error that a monitor is told of. Wherever an error comes up,
and however deep, it is the last entry of the journal, and it is what the whole
evaluation ends with.
-/

namespace BlockScript

inductive Incident where
  | asked (e : Expr) (s : ScopeId) (answer : Except Halt Value)
  | raised (error : RuntimeError)

namespace Incident

def halt? : Incident → Option Halt
  | asked _ _ (.ok _) => none
  | asked _ _ (.error halt) => some halt
  | raised error => some (.failed error)

def isAsked : Incident → Bool
  | asked .. => true
  | raised _ => false

end Incident

structure Journal (σ : Type) where
  host : σ
  incidents : List Incident

namespace World

variable {σ : Type}

def journaled (w : World σ) (incidents : List Incident) : World (Journal σ) :=
  ⟨w.store, w.trace, ⟨w.host, incidents⟩⟩

def plain (w : World (Journal σ)) : World σ := ⟨w.store, w.trace, w.host.host⟩

end World

/-! ## Journaled evaluation -/

namespace Journaled

variable {σ α β : Type}

def note (i : Incident) : Eval (Journal σ) Unit :=
  modify fun w => { w with host := ⟨w.host.host, w.host.incidents ++ [i]⟩ }

/-- The evaluator of expressions that is asked does not see the journal. -/
def ask (exprs : ExprEvaluator σ) : ExprEvaluator (Journal σ) := fun e s w =>
  match exprs e s w.plain with
  | .ok v w' => .ok v (w'.journaled (w.host.incidents ++ [.asked e s (.ok v)]))
  | .error halt w' => .error halt (w'.journaled (w.host.incidents ++ [.asked e s (.error halt)]))

def journal : Monitor (Journal σ)
  | .raise error => note (.raised error)
  | _ => return ()

def invoke (eval : StmtEvaluator (Journal σ)) (f : Closure) (arguments : List Value) : Eval (Journal σ) Value :=
  Watched.invoke journal eval f arguments

def exec (exprs : ExprEvaluator σ) (bound : Nat) : StmtEvaluator (Journal σ) := Watched.exec journal (ask exprs) bound

end Journaled

/-! ## Where errors stand in a journal -/

def Quiet (incidents : List Incident) : Prop := ∀ i ∈ incidents, i.halt? = none

/-- Only the last incident is an error, and it is `halt`; there is none if the bound is used up. -/
def EndsIn (halt : Halt) (incidents : List Incident) : Prop :=
  ∃ before, Quiet before ∧ (incidents = before ∧ halt = .exhausted ∨ ∃ i, incidents = before ++ [i] ∧ i.halt? = some halt)

theorem Quiet.nil : Quiet [] := by simp [Quiet]

theorem Quiet.append {before after : List Incident} (hb : Quiet before) (ha : Quiet after) : Quiet (before ++ after) := by
  intro i hi
  rcases List.mem_append.mp hi with hi | hi
  · exact hb i hi
  · exact ha i hi

theorem EndsIn.append {before after : List Incident} {halt : Halt} (hb : Quiet before) (ha : EndsIn halt after) :
    EndsIn halt (before ++ after) := by
  obtain ⟨more, hmore, ⟨rfl, hhalt⟩ | ⟨i, rfl, hi⟩⟩ := ha
  · exact ⟨before ++ after, hb.append hmore, .inl ⟨rfl, hhalt⟩⟩
  · exact ⟨before ++ more, hb.append hmore, .inr ⟨i, (List.append_assoc ..).symm, hi⟩⟩

theorem EndsIn.raised (error : RuntimeError) : EndsIn (.failed error) [.raised error] :=
  ⟨[], .nil, .inr ⟨_, rfl, rfl⟩⟩

theorem filter_raised (error : RuntimeError) : [Incident.raised error].filter Incident.isAsked = [] := rfl

theorem EndsIn.last {halt halt' : Halt} {before after : List Incident} {i : Incident}
    (h : EndsIn halt (before ++ i :: after)) (hi : i.halt? = some halt') : after = [] ∧ halt' = halt := by
  obtain ⟨quiet, hquiet, ⟨hall, -⟩ | ⟨j, hall, hj⟩⟩ := h
  · rw [hquiet i (by rw [← hall]; simp)] at hi
    cases hi
  · rcases List.eq_nil_or_concat after with rfl | ⟨front, x, rfl⟩
    · obtain ⟨-, hij⟩ := List.append_inj' hall rfl
      cases hij
      exact ⟨rfl, Option.some.inj (hi.symm.trans hj)⟩
    · -- then `i` is one of the quiet ones
      rw [List.concat_eq_append, ← List.cons_append, ← List.append_assoc] at hall
      obtain ⟨hfront, -⟩ := List.append_inj' hall rfl
      rw [hquiet i (by rw [← hfront]; simp)] at hi
      cases hi

theorem EndsIn.cause {error : RuntimeError} {incidents : List Incident} (h : EndsIn (.failed error) incidents) :
    ∃ before i, incidents = before ++ [i] ∧ i.halt? = some (.failed error) := by
  obtain ⟨before, -, ⟨-, hhalt⟩ | ⟨i, hall, hi⟩⟩ := h
  · cases hhalt
  · exact ⟨before, i, hall, hi⟩

/-! ## The journal follows the evaluation -/

namespace Journaled

variable {σ α β : Type}

/-- `t` does what `m` does and adds to the journal what happens meanwhile. `l` is the same as `m`, with an evaluator of
expressions that keeps a list of its own. -/
def Follows (t l : Eval (Journal σ) α) (m : Eval σ α) : Prop :=
  ∀ (w : World σ) (past heard : List Incident),
    (∃ a w' more, m.run w = .ok a w' ∧ t.run (w.journaled past) = .ok a (w'.journaled (past ++ more)) ∧
      l.run (w.journaled heard) = .ok a (w'.journaled (heard ++ more.filter Incident.isAsked)) ∧ Quiet more) ∨
    ∃ halt w' more, m.run w = .error halt w' ∧ t.run (w.journaled past) = .error halt (w'.journaled (past ++ more)) ∧
      l.run (w.journaled heard) = .error halt (w'.journaled (heard ++ more.filter Incident.isAsked)) ∧ EndsIn halt more

theorem Follows.bind {t l : Eval (Journal σ) α} {m : Eval σ α} {t' l' : α → Eval (Journal σ) β} {m' : α → Eval σ β}
    (h : Follows t l m) (hk : ∀ a, Follows (t' a) (l' a) (m' a)) : Follows (t >>= t') (l >>= l') (m >>= m') := by
  intro w past heard
  obtain ⟨a, w', more, hm, ht, hl, hquiet⟩ | ⟨halt, w', more, hm, ht, hl, hends⟩ := h w past heard
  · simp only [Eval.run_bind, hm, ht, hl]
    obtain ⟨b, w'', more', hm', ht', hl', hquiet'⟩ | ⟨halt, w'', more', hm', ht', hl', hends⟩ :=
      hk a w' (past ++ more) (heard ++ more.filter Incident.isAsked)
    · rw [List.append_assoc] at ht' hl'
      exact .inl ⟨b, w'', more ++ more', hm', ht', by rwa [List.filter_append], hquiet.append hquiet'⟩
    · rw [List.append_assoc] at ht' hl'
      exact .inr ⟨halt, w'', more ++ more', hm', ht', by rwa [List.filter_append], hends.append hquiet⟩
  · exact .inr ⟨halt, w', more, by rw [Eval.run_bind, hm], by rw [Eval.run_bind, ht], by rw [Eval.run_bind, hl], hends⟩

theorem follows_silent {t : Eval (Journal σ) α} {m : Eval σ α} {a : World σ → α} {f : World σ → World σ}
    (hm : ∀ w, m.run w = .ok (a w) (f w))
    (ht : ∀ w past, t.run (w.journaled past) = .ok (a w) ((f w).journaled past)) : Follows t t m := by
  intro w past heard
  refine .inl ⟨a w, f w, [], hm w, ?_, ?_, .nil⟩
  · rw [ht, List.append_nil]
  · rw [ht, List.filter_nil, List.append_nil]

theorem pure_follows (a : α) : Follows (pure a : Eval (Journal σ) α) (pure a) (pure a) :=
  follows_silent (a := fun _ => a) (f := id) (fun _ => rfl) fun _ _ => rfl

theorem record_follows (event : Event) :
    Follows (Eval.record event : Eval (Journal σ) Unit) (Eval.record event) (Eval.record event) :=
  follows_silent (a := fun _ => ()) (fun _ => rfl) fun _ _ => rfl

theorem depth_follows (s : ScopeId) : Follows (Eval.depth s : Eval (Journal σ) Nat) (Eval.depth s) (Eval.depth s) :=
  follows_silent (f := id) (fun _ => rfl) fun _ _ => rfl

theorem newScope_follows (parent : Option ScopeId) :
    Follows (Eval.newScope parent : Eval (Journal σ) ScopeId) (Eval.newScope parent) (Eval.newScope parent) :=
  follows_silent (fun _ => rfl) fun _ _ => rfl

theorem exhausted_follows : Follows (throw .exhausted : Eval (Journal σ) α) (throw .exhausted) (throw .exhausted) := by
  intro w past heard
  refine .inr ⟨.exhausted, w, [], rfl, ?_, ?_, [], .nil, .inl ⟨rfl, rfl⟩⟩
  · rw [List.append_nil]
    rfl
  · rw [List.filter_nil, List.append_nil]
    rfl

theorem raise_follows (error : RuntimeError) :
    Follows (Watched.raise journal error : Eval (Journal σ) α) (Eval.fail error) (Eval.fail error) := by
  intro w past heard
  refine .inr ⟨.failed error, w, [.raised error], rfl, rfl, ?_, .raised error⟩
  rw [filter_raised, List.append_nil]
  rfl

theorem ask_follows (exprs : ExprEvaluator σ) (e : Expr) (s : ScopeId) :
    Follows (ask exprs e s) (ask exprs e s) (exprs e s) := by
  intro w past heard
  have hask : ∀ past, (ask exprs e s).run (w.journaled past) = ask exprs e s (w.journaled past) := fun _ => rfl
  have hplain : ∀ past, (w.journaled past).plain = w := fun _ => rfl
  simp only [hask]
  cases h : exprs e s w with
  | ok v w' =>
    refine .inl ⟨v, w', [.asked e s (.ok v)], h, ?_, ?_, by simp [Quiet, Incident.halt?]⟩
    · rw [ask, hplain, h]
      rfl
    · rw [ask, hplain, h]
      rfl
  | error halt w' =>
    refine .inr ⟨halt, w', [.asked e s (.error halt)], h, ?_, ?_, [], .nil, .inr ⟨_, rfl, rfl⟩⟩
    · rw [ask, hplain, h]
      rfl
    · rw [ask, hplain, h]
      rfl

theorem declare_follows (s : ScopeId) (name : Name) (v : Value) (constant : Bool) :
    Follows (Watched.declare journal s name v constant : Eval (Journal σ) Value) (Eval.declare s name v constant)
      (Eval.declare s name v constant) := by
  intro w past heard
  have hdeclare := fun past => Eval.run_declare s name v constant (w.journaled past)
  have hstore : ∀ past, (w.journaled past).store = w.store := fun _ => rfl
  have hwatched : (Watched.declare journal s name v constant).run (w.journaled past) =
      (do Watched.announce journal (w.store.declarable s name); Eval.declare s name v constant).run (w.journaled past) :=
    rfl
  rw [hwatched]
  cases hd : w.store.declarable s name with
  | ok _ =>
    simp only [hstore, hd] at hdeclare
    refine .inl ⟨v, _, [], by rw [Eval.run_declare, hd], ?_, ?_, .nil⟩
    · rw [List.append_nil]
      exact hdeclare past
    · rw [List.filter_nil, List.append_nil]
      exact hdeclare heard
  | error e =>
    simp only [hstore, hd] at hdeclare
    refine .inr ⟨.failed e, w, [.raised e], by rw [Eval.run_declare, hd], ?_, ?_, .raised e⟩
    · exact hdeclare (past ++ [.raised e])
    · rw [filter_raised, List.append_nil]
      exact hdeclare heard

theorem condition_follows (exprs : ExprEvaluator σ) (construct : Construct) (check : Expr) (s : ScopeId) :
    Follows (Eval.condition (Watched.wanted journal (.condition construct) (ask exprs)) construct check s)
      (Eval.condition (ask exprs) construct check s) (Eval.condition exprs construct check s) := by
  unfold Eval.condition Watched.wanted
  rw [bind_assoc]
  refine (ask_follows exprs check s).bind fun v => ?_
  cases v with
  | boolean b => exact pure_follows b
  | _ => exact raise_follows _

theorem chooseBranch_follows (exprs : ExprEvaluator σ) (s : ScopeId) (otherwise : Option Block)
    (arms : List (Expr × Block)) :
    Follows (Eval.chooseBranch (Watched.wanted journal (.condition .conditional) (ask exprs)) s otherwise arms)
      (Eval.chooseBranch (ask exprs) s otherwise arms) (Eval.chooseBranch exprs s otherwise arms) := by
  induction arms with
  | nil => exact pure_follows otherwise
  | cons arm arms ih =>
    refine (condition_follows exprs .conditional arm.1 s).bind fun b => ?_
    cases b with
    | true => exact pure_follows (some arm.2)
    | false => exact ih

theorem bindAll_follows (s : ScopeId) (bindings : List (Name × Value)) :
    Follows (Watched.bindAll journal s bindings : Eval (Journal σ) Unit) (Eval.bindAll s bindings)
      (Eval.bindAll s bindings) := by
  induction bindings with
  | nil => exact pure_follows ()
  | cons binding bindings ih => exact (declare_follows s binding.1 binding.2 false).bind fun _ => ih

theorem initialValue_follows (exprs : ExprEvaluator σ) (value : Option Expr) (s : ScopeId) :
    Follows (Eval.initialValue (ask exprs) value s) (Eval.initialValue (ask exprs) value s)
      (Eval.initialValue exprs value s) := by
  cases value with
  | none => exact pure_follows Value.null
  | some e => exact ask_follows exprs e s

section

variable {t l : StmtEvaluator (Journal σ)} {m : StmtEvaluator σ} (heval : ∀ stmt s, Follows (t stmt s) (l stmt s) (m stmt s))

include heval

theorem sequence_follows (s : ScopeId) (last : Value) (body : Block) :
    Follows (Eval.sequence t s last body) (Eval.sequence l s last body) (Eval.sequence m s last body) := by
  induction body generalizing last with
  | nil => exact pure_follows last
  | cons stmt body ih => exact (heval stmt s).bind ih

theorem runIn_follows (body : Block) (s : ScopeId) :
    Follows (Eval.runIn t body s) (Eval.runIn l body s) (Eval.runIn m body s) :=
  (depth_follows s).bind fun _ => (record_follows _).bind fun _ => sequence_follows heval s .null body

theorem runBlock_follows (body : Block) (parent : ScopeId) :
    Follows (Eval.runBlock t body parent) (Eval.runBlock l body parent) (Eval.runBlock m body parent) :=
  (newScope_follows (some parent)).bind fun s => runIn_follows heval body s

theorem runBranch_follows (branch : Option Block) (s : ScopeId) :
    Follows (Eval.runBranch t branch s) (Eval.runBranch l branch s) (Eval.runBranch m branch s) := by
  cases branch with
  | none => exact pure_follows Value.null
  | some body => exact (runBlock_follows heval body s).bind fun _ => pure_follows Value.null

theorem invoke_follows (f : Closure) (arguments : List Value) :
    Follows (invoke t f arguments) (Eval.invoke l f arguments) (Eval.invoke m f arguments) := by
  have hpass : Watched.watchAll (σ := Journal σ) journal (arguments.map .pass) = pure () := by
    induction arguments with
    | nil => rfl
    | cons v arguments ih => exact ih
  unfold invoke Watched.invoke Eval.invoke
  rw [hpass, pure_bind]
  split
  · exact raise_follows _
  · refine (newScope_follows f.scope?).bind fun s => ?_
    refine (bindAll_follows s (f.parameters.zip arguments)).bind fun _ => ?_
    refine (depth_follows s).bind fun _ => (record_follows _).bind fun _ => ?_
    exact runIn_follows heval f.body s

end

theorem exec_follows (exprs : ExprEvaluator σ) (bound : Nat) (stmt : Stmt) (s : ScopeId) :
    Follows (exec exprs bound stmt s) (Eval.exec (ask exprs) bound stmt s) (Eval.exec exprs bound stmt s) := by
  -- on the bound, which nesting and iteration both use up
  induction bound generalizing stmt s with
  | zero => exact exhausted_follows
  | succ bound ih =>
    cases stmt with
    | program body => exact runIn_follows ih body s
    | declare kind name value =>
      refine (initialValue_follows exprs value s).bind fun v => ?_
      exact (depth_follows s).bind fun _ => (record_follows _).bind fun _ => declare_follows s name v kind.isConstant
    | function name parameters body =>
      exact (depth_follows s).bind fun _ => (record_follows _).bind fun _ => declare_follows s name _ true
    | ifElse check body arms otherwise =>
      refine (chooseBranch_follows exprs s otherwise ((check, body) :: arms)).bind fun branch => ?_
      exact runBranch_follows ih branch s
    | whileLoop check body =>
      refine (condition_follows exprs .loop check s).bind fun b => ?_
      cases b with
      | true => exact (runBlock_follows ih body s).bind fun _ => ih (.whileLoop check body) s
      | false => exact pure_follows Value.null
    | expr e => exact ask_follows exprs e s
    | missing => exact raise_follows _
    | foreign type => exact raise_follows _

/-! ## Whole evaluations -/

def kept (t : Eval (Journal σ) α) (w : World σ) : (Except Halt α × World σ) × List Incident :=
  let r := t.result (w.journaled [])
  ((r.1, r.2.plain), r.2.host.incidents)

/-- `r` is how the evaluation `m` goes, and an error in it is its end. The journal leaves out nothing that an evaluator
of expressions hears when it listens, as it does in `l`. -/
structure Ends (m : Eval σ α) (l : Eval (Journal σ) α) (w : World σ) (r : (Except Halt α × World σ) × List Incident) :
    Prop where
  same : m.result w = r.1
  heard : l.result (w.journaled []) = (r.1.1, r.1.2.journaled (r.2.filter Incident.isAsked))
  last : ∀ before i after halt, r.2 = before ++ i :: after → i.halt? = some halt → after = [] ∧ r.1.1 = .error halt
  cause : ∀ error, r.1.1 = .error (.failed error) → ∃ before i, r.2 = before ++ [i] ∧ i.halt? = some (.failed error)

theorem Follows.ends {t l : Eval (Journal σ) α} {m : Eval σ α} (h : Follows t l m) (w : World σ) :
    Ends m l w (kept t w) := by
  obtain ⟨a, w', more, hm, ht, hl, hquiet⟩ | ⟨halt, w', more, hm, ht, hl, hends⟩ := h w [] []
  · have hkept : kept t w = ((.ok a, w'), more) := by
      rw [kept, Eval.result, ht]
      rfl
    rw [hkept]
    refine ⟨by rw [Eval.result, hm], by rw [Eval.result, hl]; rfl, ?_, by simp⟩
    rintro before i after halt rfl hi
    rw [hquiet i (by simp)] at hi
    cases hi
  · have hkept : kept t w = ((.error halt, w'), more) := by
      rw [kept, Eval.result, ht]
      rfl
    rw [hkept]
    refine ⟨by rw [Eval.result, hm], by rw [Eval.result, hl]; rfl, ?_, ?_⟩
    · rintro before i after halt' rfl hi
      obtain ⟨hafter, rfl⟩ := hends.last hi
      exact ⟨hafter, rfl⟩
    · rintro error herror
      cases herror
      exact hends.cause

/-- A statement, a block and a call end with the first error, whoever raised it. -/
theorem errors_end_evaluation (exprs : ExprEvaluator σ) (bound : Nat) (w : World σ) :
    (∀ stmt s, Ends (Eval.exec exprs bound stmt s) (Eval.exec (ask exprs) bound stmt s) w
      (kept (exec exprs bound stmt s) w)) ∧
    (∀ body s, Ends (Eval.runBlock (Eval.exec exprs bound) body s) (Eval.runBlock (Eval.exec (ask exprs) bound) body s) w
      (kept (Eval.runBlock (exec exprs bound) body s) w)) ∧
    ∀ f arguments, Ends (Eval.invoke (Eval.exec exprs bound) f arguments)
      (Eval.invoke (Eval.exec (ask exprs) bound) f arguments) w (kept (invoke (exec exprs bound) f arguments) w) := by
  have hexec := exec_follows exprs bound
  exact ⟨fun stmt s => (hexec stmt s).ends w, fun body s => (runBlock_follows hexec body s).ends w,
    fun f arguments => (invoke_follows hexec f arguments).ends w⟩

end Journaled

namespace Incidents

def weary : ExprEvaluator Nat := fun _ _ w =>
  if w.host < 2 then .ok (.boolean true) { w with host := w.host + 1 }
  else .error (.failed (.typeMismatch (.reported [] (ascii "weary")))) { w with host := w.host + 1 }

def around (stmt : Stmt) : Stmt :=
  .whileLoop (.identifier (ascii "a")) [.ifElse (.identifier (ascii "b")) [stmt] [] none]

def lastWord : Stmt := .expr (.identifier (ascii "c"))

def fresh : World Nat := ⟨Store.initial, #[], 0⟩

theorem errors_end_loops :
    Journaled.Ends (Eval.exec weary 5 (around lastWord) 0)
      (Eval.exec (Journaled.ask weary) 5 (around lastWord) 0) fresh
      (Journaled.kept (Journaled.exec weary 5 (around lastWord) 0) fresh) ∧
    (Journaled.kept (Journaled.exec weary 5 (around lastWord) 0) fresh).2.map Incident.halt? =
      [none, none, some (.failed (.typeMismatch (.reported [] (ascii "weary"))))] ∧
    Journaled.Ends (Eval.exec weary 5 (around .missing) 0) (Eval.exec (Journaled.ask weary) 5 (around .missing) 0) fresh
      (Journaled.kept (Journaled.exec weary 5 (around .missing) 0) fresh) ∧
    (Journaled.kept (Journaled.exec weary 5 (around .missing) 0) fresh).2.map Incident.halt? =
      [none, none, some (.failed (.unsupportedStatement missingText))] := by
  have hends := (Journaled.errors_end_evaluation weary 5 fresh).1
  exact ⟨hends _ 0, rfl, hends _ 0, rfl⟩

end Incidents

end BlockScript
