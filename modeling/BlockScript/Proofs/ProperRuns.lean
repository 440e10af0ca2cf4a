import BlockScript.Proofs.Monitoring
import BlockScript.Proofs.ParseLines
import BlockScript.Proofs.Persistence
import BlockScript.Proofs.Tokenizing

/-!
# Programs that are parsed run properly

The evaluator has answers for trees that no source has: nodes that are missing
or unknown, operators that stand for nothing. The tokens of a source have the
lexemes of their kinds, so a tree built from them is free of all that, and so
are the bodies of the functions that a session keeps. Whatever such programs
do, they apply known operators only and never come upon an absent value.
-/

namespace BlockScript

/-! ## Proper trees -/

namespace Operator

def binaries : List Bytes :=
  [ascii "==", ascii "!=", ascii ">", ascii ">=", ascii "<", ascii "<=", ascii "+", ascii "-", ascii "*", ascii "/",
   ascii "%"]

def unaries : List Bytes := [ascii "!", ascii "-"]

end Operator

namespace Expr

mutual

def isProper : Expr → Bool
  | .number _ | .string _ | .identifier _ => true
  | .assign _ e => e.isProper
  | .binary t left right => Operator.binaries.contains t.lexeme && left.isProper && right.isProper
  | .logical t left right => (LogicalOp.ofLexeme? t.lexeme).isSome && left.isProper && right.isProper
  | .unary t e => Operator.unaries.contains t.lexeme && e.isProper
  | .call callee es => callee.isProper && allProper es
  | .missing | .foreign _ => false

def allProper : List Expr → Bool
  | [] => true
  | e :: es => e.isProper && allProper es

end

theorem isProper_of_allProper {es : List Expr} (h : allProper es = true) : ∀ e ∈ es, e.isProper = true := by
  induction es with
  | nil => simp
  | cons e es ih =>
    simp only [allProper, Bool.and_eq_true] at h
    simpa [h.1] using ih h.2

end Expr

namespace Stmt

mutual

def isProper : Stmt → Bool
  | .program body | .function _ _ body => allProper body
  | .declare _ _ value => value.all Expr.isProper
  | .ifElse check body arms otherwise =>
    check.isProper && allProper body && armsProper arms && lastProper otherwise
  | .whileLoop check body => check.isProper && allProper body
  | .expr e => e.isProper
  | .missing | .foreign _ => false

def allProper : List Stmt → Bool
  | [] => true
  | s :: ss => s.isProper && allProper ss

def armsProper : List (Expr × List Stmt) → Bool
  | [] => true
  | (check, body) :: arms => check.isProper && allProper body && armsProper arms

def lastProper : Option (List Stmt) → Bool
  | none => true
  | some body => allProper body

end

theorem proper_of_armsProper {arms : List (Expr × List Stmt)} (h : armsProper arms = true) :
    ∀ arm ∈ arms, arm.1.isProper = true ∧ allProper arm.2 = true := by
  induction arms with
  | nil => simp
  | cons arm arms ih =>
    simp only [armsProper, Bool.and_eq_true] at h
    simpa [h.1] using ih h.2

end Stmt

def Phrase.isProper : Phrase → Bool
  | expression _ e => e.isProper
  | arguments es => Expr.allProper es
  | parameters _ => true
  | block body | statements body => Stmt.allProper body
  | branches arms otherwise => Stmt.armsProper arms && Stmt.lastProper otherwise
  | statement s => s.isProper

/-! ### Tokens of operators -/

namespace Token

theorem WellFormed.binary {t : Token} (h : t.WellFormed) {q : Nat} (hq : t.binaryRank? = some q) :
    Operator.binaries.contains t.lexeme = true := by
  unfold binaryRank? at hq
  unfold WellFormed at h
  split at hq <;> simp_all [TokenKind.words, TokenKind.symbols, Operator.binaries]

theorem WellFormed.logical {t : Token} (h : t.WellFormed) {q : Nat} (hq : t.logicalRank? = some q) :
    (LogicalOp.ofLexeme? t.lexeme).isSome = true := by
  have hspelling : t.lexeme ∈ [ascii "and", ascii "&&", ascii "or", ascii "||"] := by
    unfold logicalRank? at hq
    unfold WellFormed at h
    split at hq <;> grind [TokenKind.words, TokenKind.symbols]
  have hknown : ∀ op ∈ [ascii "and", ascii "&&", ascii "or", ascii "||"], (LogicalOp.ofLexeme? op).isSome = true := by
    decide
  exact hknown t.lexeme hspelling

theorem WellFormed.unary {t : Token} (h : t.WellFormed) (ht : t.isSign) :
    Operator.unaries.contains t.lexeme = true := by
  rcases ht with hk | ⟨-, hl⟩
  · simp_all [WellFormed, TokenKind.words, TokenKind.symbols, Operator.unaries]
  · rw [hl]; rfl

end Token

theorem Writes.isProper {phrase : Phrase} {ts : List Token} (h : Writes .free phrase ts)
    (hts : ∀ t ∈ ts, t.WellFormed) : phrase.isProper = true := by
  induction h with
  | unary _ ht => grind [Token.WellFormed.unary, Phrase.isProper, Expr.isProper]
  | binary _ ht => grind [Token.WellFormed.binary, Phrase.isProper, Expr.isProper]
  | logical _ ht => grind [Token.WellFormed.logical, Phrase.isProper, Expr.isProper]
  | _ =>
    grind [Phrase.isProper, Expr.isProper, Expr.allProper, Stmt.isProper, Stmt.allProper, Stmt.armsProper,
      Stmt.lastProper]

theorem Program.allProper_of_ofSource {source terminator : Bytes} {program : Program}
    (h : Program.ofSource source terminator = .ok program) : Stmt.allProper program = true := by
  obtain ⟨ts, q, htokens, -, hwrites⟩ := Program.ofSource_eq_ok h
  have hformed := (Source.cut_of_tokens htokens).wellFormed
  exact hwrites.isProper fun t ht => hformed t (List.mem_append_left _ ht)

/-! ## Proper worlds -/

def Value.isProper : Value → Bool
  | .absent => false
  | .function f => Stmt.allProper f.body
  | _ => true

theorem Value.isProper_of_isPlain {v : Value} (h : v.isPlain = true) : v.isProper = true := by
  cases v with
  | function | absent => cases h
  | _ => rfl

theorem Value.type_ne_absent {v : Value} (h : v.isProper = true) : v.type ≠ .absent := by
  cases v with
  | absent => cases h
  | _ => simp [Value.type]

namespace Store

def Proper (h : Store) : Prop := h.Holds (·.isProper = true)

theorem proper_initial : Store.initial.Proper := initial_plain.mono fun _ => Value.isProper_of_isPlain

end Store

/-! ## Proper errors and acts -/

def Mismatch.isProper : Mismatch → Bool
  | .condition _ got | .logical _ got => got != .absent && got != .boolean
  | .notCallable got => got != .absent && got != .function
  | .binary operator left right => Operator.binaries.contains operator && left != .absent && right != .absent
  | .unary operator operand => Operator.unaries.contains operator && operand != .absent
  | .unknownLogical _ | .reported _ _ => false

def RuntimeError.isProper : RuntimeError → Bool
  | .duplicateDeclaration _ | .undeclaredVariable _ | .immutableAssignment _ | .wrongArgumentCount _ _ _ => true
  | .typeMismatch mismatch => mismatch.isProper
  | .unsupportedStatement _ => false

def Act.isProper : Act → Bool
  | .applyBinary operator left right => Operator.binaries.contains operator && left.isProper && right.isProper
  | .applyUnary operator operand => Operator.unaries.contains operator && operand.isProper
  | .applyLogical operator => (LogicalOp.ofLexeme? operator).isSome
  | .askType value | .store value | .pass value => value.isProper
  | .raise error => error.isProper

/-! ## The discipline -/

def properSyntax : Statics where
  Context := Unit
  inner _ := ()
  declared _ _ := ()
  expr _ e := e.isProper = true
  stmt _ stmt := stmt.isProper = true

theorem properSyntax_block {body : List Stmt} (h : Stmt.allProper body = true) (Γ : Unit) : properSyntax.block Γ body := by
  induction body with
  | nil => trivial
  | cons stmt body ih =>
    simp only [Stmt.allProper, Bool.and_eq_true] at h
    exact ⟨h.1, ih h.2⟩

theorem properSyntax_call {f : Closure} (h : Stmt.allProper f.body = true) :
    properSyntax.block () (f.declarations ++ f.body) := by
  refine (properSyntax.block_append () _ _).mpr ⟨?_, properSyntax_block h _⟩
  unfold Closure.declarations
  induction f.parameters with
  | nil => trivial
  | cons name names ih => exact ⟨by simp [properSyntax, Stmt.isProper], ih⟩

def propriety : Discipline where
  toStatics := properSyntax
  inv := Store.Proper
  value _ v := v.isProper = true
  scope _ _ _ := True
  grows _ _ := True
  growsIn _ _ _ := True
  stops e := e.isProper = true
  expr_assign he := by simpa [properSyntax, Expr.isProper] using he
  expr_binary he := by
    simp only [properSyntax, Expr.isProper, Bool.and_eq_true] at he
    exact ⟨he.1.2, he.2⟩
  expr_logical he := by
    simp only [properSyntax, Expr.isProper, Bool.and_eq_true] at he
    exact ⟨he.1.2, he.2⟩
  expr_unary he := by
    simp only [properSyntax, Expr.isProper, Bool.and_eq_true] at he
    exact he.2
  expr_call he := by
    simp only [properSyntax, Expr.isProper, Bool.and_eq_true] at he
    exact ⟨he.1, Expr.isProper_of_allProper he.2⟩
  stmt_program hs := properSyntax_block (by simpa [properSyntax, Stmt.isProper] using hs) _
  stmt_declare hs := by simpa [properSyntax, Stmt.isProper] using hs
  stmt_ifElse {_ check body arms otherwise} hs := by
    simp only [properSyntax, Stmt.isProper, Bool.and_eq_true] at hs
    obtain ⟨⟨⟨hcheck, hbody⟩, harms⟩, hlast⟩ := hs
    constructor
    · intro arm harm
      rcases List.mem_cons.mp harm with rfl | harm
      · exact ⟨hcheck, properSyntax_block hbody _⟩
      · obtain ⟨hc, hb⟩ := Stmt.proper_of_armsProper harms arm harm
        exact ⟨hc, properSyntax_block hb _⟩
    · rintro rest rfl
      exact properSyntax_block (by simpa [Stmt.lastProper] using hlast) _
  stmt_while hs := by
    simp only [properSyntax, Stmt.isProper, Bool.and_eq_true] at hs
    exact ⟨hs.1, properSyntax_block hs.2 _⟩
  stmt_expr hs := by simpa [properSyntax, Stmt.isProper] using hs
  grows_refl _ := trivial
  grows_trans _ _ := trivial
  growsIn_of_grows _ := trivial
  growsIn_trans _ _ := trivial
  scope_mono _ _ := trivial
  value_mono _ hv := hv
  value_plain := Value.isProper_of_isPlain
  enter hi _ _ := ⟨Store.Holds.add hi _, trivial⟩
  leave _ := trivial
  call hi hf := ⟨Store.Holds.add hi _, (), trivial, properSyntax_call hf⟩
  lookup {h s _ name} hi _ _ := by
    cases hl : h.lookup s name with
    | error e =>
      rw [Store.lookup_eq_error hl]
      rfl
    | ok v =>
      obtain ⟨t, b, -, hb, rfl⟩ := Store.lookup_eq_ok hl
      exact hi hb
  assign {h s _ name e v} hi _ _ hv := by
    cases ha : h.assignable s name with
    | error e => rcases Store.assignable_eq_error ha with rfl | rfl <;> rfl
    | ok t => exact ⟨Store.Holds.overwrite hi hv t name, trivial⟩
  declare {h s _ kind name e v} hi _ _ hv := by
    cases hd : h.declarable s name with
    | error e =>
      rw [Store.declarable_eq_error hd]
      rfl
    | ok _ => exact ⟨Store.Holds.bind hi hv s name kind.isConstant, trivial, trivial⟩
  function {h s _ name parameters body} hi _ hstmt := by
    have hv : (Value.function ⟨name, parameters, .declaredIn s, body⟩).isProper = true := by
      simpa [properSyntax, Stmt.isProper, Value.isProper] using hstmt
    cases hd : h.declarable s name with
    | error e =>
      rw [Store.declarable_eq_error hd]
      rfl
    | ok _ => exact ⟨Store.Holds.bind hi hv s name true, trivial, trivial, hv⟩
  stops_condition hv ht := by simp [RuntimeError.isProper, Mismatch.isProper, Value.type_ne_absent hv, ht]
  stops_operand hv ht := by simp [RuntimeError.isProper, Mismatch.isProper, Value.type_ne_absent hv, ht]
  stops_callee hv ht := by simp [RuntimeError.isProper, Mismatch.isProper, Value.type_ne_absent hv, ht]
  stops_arity _ _ _ := rfl
  stops_binary {_ _ t l r x y e} he hx hy h := by
    simp only [properSyntax, Expr.isProper, Bool.and_eq_true] at he
    rw [Operator.applyBinary_eq_error h, RuntimeError.isProper, Mismatch.isProper, he.1.1]
    simp [Value.type_ne_absent hx, Value.type_ne_absent hy]
  stops_unary {_ _ t l x e} he hx h := by
    simp only [properSyntax, Expr.isProper, Bool.and_eq_true] at he
    rw [Operator.applyUnary_eq_error h, RuntimeError.isProper, Mismatch.isProper, he.1]
    simp [Value.type_ne_absent hx]
  stops_logical he hop := by
    simp only [properSyntax, Expr.isProper, Bool.and_eq_true, hop] at he
    cases he.1.1
  stops_missing h := by simp [properSyntax, Expr.isProper, Stmt.isProper] at h
  stops_foreign h := by simp [properSyntax, Expr.isProper, Stmt.isProper] at h

theorem propriety_permits : propriety.Permits (fun act => act.isProper = true) where
  askType hv := hv
  store hv := hv
  pass hv := hv
  function _ hstmt := by
    simpa [propriety, properSyntax, Stmt.isProper, Act.isProper, Value.isProper] using hstmt
  binary he hx hy := by
    simp only [propriety, properSyntax, Expr.isProper, Bool.and_eq_true] at he hx hy
    simp only [Act.isProper, he.1.1, hx, hy, Bool.and_self]
  unary he hx := by
    simp only [propriety, properSyntax, Expr.isProper, Bool.and_eq_true] at he hx
    simp only [Act.isProper, he.1, hx, Bool.and_self]
  logical he := by
    simp only [propriety, properSyntax, Expr.isProper, Bool.and_eq_true] at he
    exact he.1.1
  raise he := he

/-! ## Runs and sessions -/

/-- A monitor that only improper acts can call on. -/
def Monitor.Trusting {σ : Type} (watch : Monitor σ) : Prop := ∀ act, act.isProper = true → watch act = pure ()

section

variable {σ : Type} {program : Program} {w : World σ}

structure ProperResult (r : Except Halt Value × World σ) : Prop where
  value {v : Value} : r.1 = .ok v → v.isProper = true
  error {e : RuntimeError} : r.1 = .error (.failed e) → e.isProper = true
  store : r.2.store.Proper

theorem result_proper (hp : Stmt.allProper program = true) (hw : w.store.Proper) (bound : Nat) :
    ProperResult ((Eval.evaluate bound (.program program) globalScope).result w) := by
  have hstmt : (Stmt.program program).isProper = true := by simpa [Stmt.isProper] using hp
  have hsound := Discipline.evaluate_sound (D := propriety) bound () (.program program) globalScope w hw trivial hstmt
  unfold Discipline.Ensures at hsound
  unfold Eval.result
  cases hrun : (Eval.evaluate bound (.program program) globalScope).run w with
  | ok v w' =>
    simp only [hrun] at hsound
    refine ⟨fun h => ?_, fun h => (by cases h), hsound.1⟩
    cases h
    exact hsound.2.2.1
  | error halt w' =>
    simp only [hrun] at hsound
    exact ⟨fun h => (by cases h), fun h => hsound.2.2 _ (Except.error.inj h), hsound.1⟩

theorem result_watched {watch : Monitor σ} (hwatch : watch.Trusting) (hp : Stmt.allProper program = true)
    (hw : w.store.Proper) (bound : Nat) :
    (Watched.evaluate watch bound (.program program) globalScope).result w =
      (Eval.evaluate bound (.program program) globalScope).result w := by
  have hstmt : (Stmt.program program).isProper = true := by simpa [Stmt.isProper] using hp
  have hrun := Discipline.evaluate_agrees hwatch propriety_permits bound () (.program program) globalScope w hw trivial
    hstmt
  simp only [Eval.result, hrun]

end

namespace Watched

def run (watch : Monitor Unit) (bound : Nat) (program : Program) : Except Halt Value × World Unit :=
  (evaluate watch bound (.program program) globalScope).result World.initial

def eval (watch : Monitor Unit) (bound : Nat) (source terminator : Bytes) (session : Session) :
    Except RunError Value × Session :=
  match Program.ofSource source terminator with
  | .error e => (.error (.source e), session)
  | .ok program =>
    let (outcome, world) := (evaluate watch bound (.program program) globalScope).result session.world
    (outcome.mapError .halted, ⟨world⟩)

end Watched

namespace Session

/-- The sessions that come about by evaluating sources, be they programs or not, and whether or not they fail. -/
inductive Reached : Session → Prop
  | start : Reached .start
  | eval {session : Session} : Reached session → ∀ bound source terminator,
      Reached (session.eval bound source terminator).2

variable {session : Session}

theorem eval_of_ofSource {source terminator : Bytes} {program : Program}
    (h : Program.ofSource source terminator = .ok program) (bound : Nat) (session : Session) :
    session.eval bound source terminator =
      (((Eval.evaluate bound (.program program) globalScope).result session.world).1.mapError .halted,
        ⟨((Eval.evaluate bound (.program program) globalScope).result session.world).2⟩) := by
  simp only [Session.eval, h]
  generalize (Eval.evaluate bound (.program program) globalScope).result session.world = r
  obtain ⟨outcome, world⟩ := r
  cases outcome <;> rfl

theorem eval_proper (hs : session.world.store.Proper) (bound : Nat) (source terminator : Bytes) :
    (∀ v, (session.eval bound source terminator).1 = .ok v → v.isProper = true) ∧
    (∀ e, (session.eval bound source terminator).1 = .error (.halted (.failed e)) → e.isProper = true) ∧
    (session.eval bound source terminator).2.world.store.Proper := by
  cases hsource : Program.ofSource source terminator with
  | error e =>
    have heval : session.eval bound source terminator = (.error (.source e), session) := by
      simp only [Session.eval, hsource]
    rw [heval]
    exact ⟨by simp, by simp, hs⟩
  | ok program =>
    obtain ⟨hvalue, herror, hstore⟩ := result_proper (Program.allProper_of_ofSource hsource) hs bound
    rw [eval_of_ofSource hsource]
    generalize (Eval.evaluate bound (.program program) globalScope).result session.world = r at hvalue herror hstore ⊢
    obtain ⟨outcome, world⟩ := r
    refine ⟨fun v h => ?_, fun e h => ?_, hstore⟩
    · cases outcome with
      | ok u =>
        cases h
        exact hvalue rfl
      | error halt => cases h
    · cases outcome with
      | ok u => cases h
      | error halt =>
        cases h
        exact herror rfl

theorem Reached.proper (hr : session.Reached) : session.world.store.Proper := by
  induction hr with
  | start => exact Store.proper_initial
  | eval _ bound source terminator ih => exact (eval_proper ih bound source terminator).2.2

theorem eval_watched {watch : Monitor Unit} (hwatch : watch.Trusting) (hs : session.world.store.Proper) (bound : Nat)
    (source terminator : Bytes) :
    Watched.eval watch bound source terminator session = session.eval bound source terminator := by
  unfold Watched.eval
  cases hsource : Program.ofSource source terminator with
  | error e => simp only [Session.eval, hsource]
  | ok program =>
    rw [eval_of_ofSource hsource]
    simp only [result_watched hwatch (Program.allProper_of_ofSource hsource) hs bound]

end Session

/-- Programs that are parsed, run afresh or in a session with a past, have proper outcomes and leave proper stores. On
the way they only do what is proper: it makes no difference that a monitor watches which any other act would call on. -/
theorem parsed_programs_run_properly :
    (∀ bound, Watched.evaluate (σ := Unit) Watched.idle bound = Eval.evaluate bound) ∧
    (∀ {source terminator : Bytes} {program : Program}, Program.ofSource source terminator = .ok program → ∀ bound,
      ProperResult (program.run bound) ∧
      ∀ watch : Monitor Unit, watch.Trusting → Watched.run watch bound program = program.run bound) ∧
    ∀ {session : Session}, session.Reached → ∀ bound source terminator,
      (∀ v, (session.eval bound source terminator).1 = .ok v → v.isProper = true) ∧
      (∀ e, (session.eval bound source terminator).1 = .error (.halted (.failed e)) → e.isProper = true) ∧
      (session.eval bound source terminator).2.world.store.Proper ∧
      ∀ watch : Monitor Unit, watch.Trusting →
        Watched.eval watch bound source terminator session = session.eval bound source terminator := by
  refine ⟨Watched.evaluate_idle, ?_, ?_⟩
  · intro source terminator program h bound
    have hp := Program.allProper_of_ofSource h
    exact ⟨result_proper hp Store.proper_initial bound,
      fun watch hwatch => result_watched hwatch hp Store.proper_initial bound⟩
  · intro session hr bound source terminator
    obtain ⟨hvalue, herror, hstore⟩ := Session.eval_proper hr.proper bound source terminator
    exact ⟨hvalue, herror, hstore, fun watch hwatch => Session.eval_watched hwatch hr.proper bound source terminator⟩

/-! ### A monitor that rings -/

def alarm : Monitor Unit := fun act => if act.isProper then pure () else throw .exhausted

theorem alarm_trusting : alarm.Trusting := fun act h => by simp [alarm, h]

def negation : Bytes := ascii "fn negate(x) \x7b -x; \x7d negate(true and \"a\" < \"b\");"

def negated : Session := (Session.start.eval 20 negation []).2

def unparsed : Stmt := .expr (.unary ⟨.arithmetic, ascii "+", .nowhere⟩ (.identifier (ascii "true")))

theorem negation_runs_properly :
    (∃ program, Program.ofSource negation [] = .ok program ∧ ProperResult (program.run 20) ∧
      Watched.run alarm 20 program = program.run 20) ∧
    (negated.eval 20 (ascii "negate(null)") []).1.map (fun _ => ()) =
      .error (.halted (.failed (.typeMismatch (.unary (ascii "-") .null)))) ∧
    Watched.eval alarm 20 (ascii "negate(null)") [] negated = negated.eval 20 (ascii "negate(null)") [] ∧
    ((Watched.evaluate alarm 20 unparsed globalScope).result World.initial).1.map (fun _ => ()) = .error .exhausted := by
  obtain ⟨-, hruns, hsessions⟩ := parsed_programs_run_properly
  have hparses : (Program.ofSource negation []).isOk = true := by decide +kernel
  refine ⟨?_, by decide +kernel, ?_, by decide +kernel⟩
  · cases hprogram : Program.ofSource negation [] with
    | error e =>
      rw [hprogram] at hparses
      cases hparses
    | ok program =>
      obtain ⟨hresult, hwatched⟩ := hruns hprogram 20
      exact ⟨program, rfl, hresult, hwatched alarm alarm_trusting⟩
  · have hreached : negated.Reached := .eval .start 20 negation []
    exact (hsessions hreached 20 (ascii "negate(null)") []).2.2.2 alarm alarm_trusting

end BlockScript
