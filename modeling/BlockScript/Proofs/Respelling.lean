import BlockScript.Syntax.Parse
import BlockScript.Proofs.Transcription

/-!
# Spellings that the grammar does not tell apart

A token is in plain spelling if it has no position, and if constants and
connectives are written with the first of their two words. Parsing plain
tokens gives the plain tree, or the same failures at the same places.
-/

namespace BlockScript

/-! ## Plain tokens -/

def TokenKind.plain : TokenKind → TokenKind
  | .finalKeyword => .constKeyword
  | kind => kind

def connectiveWord (lexeme : Bytes) : Bytes :=
  if lexeme = ascii "&&" then ascii "and" else if lexeme = ascii "||" then ascii "or" else lexeme

def TokenKind.plainLexeme (kind : TokenKind) (lexeme : Bytes) : Bytes :=
  match kind with
  | .finalKeyword => ascii "const"
  | .and | .or => connectiveWord lexeme
  | _ => lexeme

/-- The token without its position, with `final` read as `const` and the signs of connectives as words. -/
def Token.plain (t : Token) : Token := ⟨t.kind.plain, t.kind.plainLexeme t.lexeme, .nowhere⟩

def DeclKind.plain : DeclKind → DeclKind
  | .final => .const
  | kind => kind

theorem ofLexeme?_connectiveWord (lexeme : Bytes) :
    LogicalOp.ofLexeme? (connectiveWord lexeme) = LogicalOp.ofLexeme? lexeme := by
  unfold connectiveWord
  by_cases hand : lexeme = ascii "&&"
  · rw [if_pos hand, hand]
    decide
  · rw [if_neg hand]
    by_cases hor : lexeme = ascii "||"
    · rw [if_pos hor, hor]
      decide
    · rw [if_neg hor]

theorem connectiveWord_of_none {lexeme : Bytes} (h : LogicalOp.ofLexeme? lexeme = none) :
    connectiveWord lexeme = lexeme := by
  have hand : lexeme ≠ ascii "&&" := by
    rintro rfl
    exact absurd h (by decide)
  have hor : lexeme ≠ ascii "||" := by
    rintro rfl
    exact absurd h (by decide)
  rw [connectiveWord, if_neg hand, if_neg hor]

def Transcription.plain : Transcription where
  name := id
  operator t := ⟨t.kind, t.lexeme, .nowhere⟩
  connective t := ⟨t.kind, connectiveWord t.lexeme, .nowhere⟩
  kind := DeclKind.plain
  name_inj h := h
  lexeme_operator _ := rfl
  meaning_connective t := ofLexeme?_connectiveWord t.lexeme
  lexeme_connective h := connectiveWord_of_none h
  isConstant_kind k := by cases k <;> rfl

namespace Token

theorem kind_plain_iff {t : Token} (kind : TokenKind) (hk : kind ≠ .constKeyword ∧ kind ≠ .finalKeyword) :
    t.plain.kind = kind ↔ t.kind = kind := by
  show t.kind.plain = kind ↔ t.kind = kind
  unfold TokenKind.plain
  split
  · rename_i hfinal
    rw [hfinal]
    exact iff_of_false (Ne.symm hk.1) (Ne.symm hk.2)
  · rfl

theorem isTypeName_plain (t : Token) : t.plain.kind.isTypeName = t.kind.isTypeName := by
  obtain ⟨kind, lexeme, position⟩ := t
  cases kind <;> rfl

theorem startsStatement_plain (t : Token) : t.plain.kind.startsStatement = t.kind.startsStatement := by
  obtain ⟨kind, lexeme, position⟩ := t
  cases kind <;> rfl

theorem lexeme_plain_of_identifier {t : Token} (h : t.kind = .identifier) : t.plain.lexeme = t.lexeme := by
  show t.kind.plainLexeme t.lexeme = t.lexeme
  rw [h]
  rfl

theorem connective_plain {t : Token} (h : t.kind = .and ∨ t.kind = .or) : Transcription.plain.connective t = t.plain := by
  obtain ⟨kind, lexeme, position⟩ := t
  rcases h with h | h <;> cases h <;> rfl

theorem operator_plain {t : Token} (h : t.kind ≠ .finalKeyword ∧ t.kind ≠ .and ∧ t.kind ≠ .or) :
    Transcription.plain.operator t = t.plain := by
  obtain ⟨kind, lexeme, position⟩ := t
  cases kind with
  | finalKeyword => exact absurd rfl h.1
  | and => exact absurd rfl h.2.1
  | or => exact absurd rfl h.2.2
  | _ => rfl

end Token

namespace Parse

/-! ## Parsers that respect plain spelling -/

def Failure.plain (failure : Failure) : Failure :=
  ⟨failure.cause, failure.site.map Token.plain, failure.rest.map Token.plain⟩

def carry {α β : Type} (g : α → β) : Except Failure α → Except Failure β
  | .ok a => .ok (g a)
  | .error failure => .error failure.plain

def along {α : Type} (g : α → α) : α × List Token → α × List Token
  | (a, rest) => (g a, rest.map Token.plain)

def Respects {α : Type} (g : α → α) (p : Parser α) : Prop :=
  ∀ rest, p (rest.map Token.plain) = carry (along g) (p rest)

theorem carry_bind {α β γ δ : Type} {x : Except Failure α} {k : α → Except Failure γ} {k' : β → Except Failure δ}
    {g : α → β} {g' : γ → δ} (h : ∀ a, x = .ok a → k' (g a) = carry g' (k a)) :
    (carry g x >>= k') = carry g' (x >>= k) := by
  cases x with
  | error failure => rfl
  | ok a => exact h a rfl

theorem Respects.bind {α γ δ : Type} {g : α → α} {p : Parser α} (hp : Respects g p) {k : α × List Token → Except Failure γ}
    {k' : α × List Token → Except Failure δ} {g' : γ → δ} (rest : List Token)
    (h : ∀ a after, p rest = .ok (a, after) → k' (g a, after.map Token.plain) = carry g' (k (a, after))) :
    (p (rest.map Token.plain) >>= k') = carry g' (p rest >>= k) := by
  rw [hp rest]
  refine carry_bind ?_
  rintro ⟨a, after⟩ ha
  exact h a after ha

/-! ### Single tokens -/

theorem startsWith_plain (kind : TokenKind) (hk : kind ≠ .constKeyword ∧ kind ≠ .finalKeyword) (rest : List Token) :
    startsWith kind (rest.map Token.plain) = startsWith kind rest := by
  cases rest with
  | nil => rfl
  | cons t rest =>
    simp only [List.map_cons, startsWith, Token.kind_plain_iff kind hk]

theorem expect_respects {kind : TokenKind} (hk : kind ≠ .constKeyword ∧ kind ≠ .finalKeyword) (cause : ParseCause) :
    Respects Token.plain (expect kind cause) := by
  intro rest
  cases rest with
  | nil => rfl
  | cons t rest =>
    simp only [List.map_cons, expect, Token.kind_plain_iff kind hk]
    split <;> rfl

theorem kind_of_expect {kind : TokenKind} {cause : ParseCause} {ts : List Token} {t : Token} {rest : List Token}
    (h : expect kind cause ts = .ok (t, rest)) : t.kind = kind := by
  cases ts with
  | nil => cases h
  | cons u us =>
    rw [expect] at h
    split at h
    · rename_i hu
      cases h
      exact hu
    · cases h

theorem skipSemicolon_plain (rest : List Token) :
    skipSemicolon (rest.map Token.plain) = (skipSemicolon rest).map Token.plain := by
  cases rest with
  | nil => rfl
  | cons t rest =>
    simp only [List.map_cons, skipSemicolon, Token.kind_plain_iff .semicolon (by decide)]
    split <;> rfl

theorem skipAnnotation_plain (rest : List Token) :
    skipAnnotation (rest.map Token.plain) = carry (List.map Token.plain) (Parse.skipAnnotation rest) := by
  match rest with
  | [] => rfl
  | [t] =>
    simp only [List.map_cons, List.map_nil, skipAnnotation, Token.kind_plain_iff .colon (by decide)]
    split <;> rfl
  | t :: u :: rest =>
    simp only [List.map_cons, skipAnnotation, Token.kind_plain_iff .colon (by decide), Token.isTypeName_plain]
    split
    · split <;> rfl
    · rfl

/-! ### Lists between parentheses -/

section

variable {α : Type} {g : α → α} {item : Parser α} (hitem : Respects g item) (tooMany : ParseCause)
include hitem

theorem commaSeparated_respects (room : Nat) : Respects (List.map g) (commaSeparated item tooMany room) := by
  induction room with
  | zero => intro rest; rfl
  | succ room ih =>
    intro rest
    simp only [commaSeparated]
    refine hitem.bind rest fun first rest _ => ?_
    cases rest with
    | nil => rfl
    | cons t after =>
      simp only [List.map_cons, Token.kind_plain_iff .comma (by decide)]
      split
      · refine ih.bind after fun more rest _ => ?_
        rfl
      · rfl

theorem items_respects : Respects (List.map g) (items item tooMany) := by
  intro rest
  simp only [items, startsWith_plain .closeParen (by decide)]
  split
  · rfl
  · exact commaSeparated_respects hitem tooMany maxItems rest

end

/-! ### Expressions -/

theorem hasOperator_plain (level : Level) (t : Token) : level.hasOperator t.plain = level.hasOperator t := by
  obtain ⟨kind, lexeme, position⟩ := t
  cases level <;> cases kind <;> rfl

theorem isUnaryOperator_plain (t : Token) : isUnaryOperator t.plain = isUnaryOperator t := by
  obtain ⟨kind, lexeme, position⟩ := t
  cases kind <;> rfl

theorem combine_plain {level : Level} {t : Token} (h : level.hasOperator t = true) (left right : Expr) :
    level.combine t.plain (Transcription.plain.expr left) (Transcription.plain.expr right) =
      Transcription.plain.expr (level.combine t left right) := by
  cases level with
  | or =>
    have hkind : t.kind = .or := of_decide_eq_true h
    simp only [Level.combine, Transcription.expr, Token.connective_plain (.inr hkind)]
  | and =>
    have hkind : t.kind = .and := of_decide_eq_true h
    simp only [Level.combine, Transcription.expr, Token.connective_plain (.inl hkind)]
  | _ =>
    have hkind : t.kind ≠ .finalKeyword ∧ t.kind ≠ .and ∧ t.kind ≠ .or := by
      refine ⟨?_, ?_, ?_⟩ <;> intro hk <;> simp [Level.hasOperator, hk] at h
    simp only [Level.combine, Transcription.expr, Token.operator_plain hkind]

theorem unary_plain {t : Token} (h : isUnaryOperator t = true) (operand : Expr) :
    Expr.unary t.plain (Transcription.plain.expr operand) = Transcription.plain.expr (.unary t operand) := by
  have hkind : t.kind ≠ .finalKeyword ∧ t.kind ≠ .and ∧ t.kind ≠ .or := by
    refine ⟨?_, ?_, ?_⟩ <;> intro hk <;> simp [isUnaryOperator, hk] at h
  simp only [Transcription.expr, Token.operator_plain hkind]

section

variable {nested : Parser Expr} (hnested : Respects Transcription.plain.expr nested)
include hnested

theorem primary_respects : Respects Transcription.plain.expr (primary nested) := by
  intro rest
  cases rest with
  | nil => rfl
  | cons t rest =>
    obtain ⟨kind, lexeme, position⟩ := t
    cases kind with
    | number =>
      simp only [List.map_cons, Token.plain, TokenKind.plain, TokenKind.plainLexeme, primary]
      cases Numeral.read? lexeme <;> rfl
    | openParen =>
      show (nested (rest.map Token.plain) >>= _) = carry _ (nested rest >>= _)
      refine hnested.bind rest fun e rest _ => ?_
      refine (expect_respects (by decide) .unclosedParen).bind rest fun _ rest _ => ?_
      rfl
    | _ => rfl

theorem callChain_respects (bound : Nat) (callee : Expr) (rest : List Token) :
    callChain nested bound (Transcription.plain.expr callee) (rest.map Token.plain) =
      carry (along Transcription.plain.expr) (callChain nested bound callee rest) := by
  induction bound generalizing callee rest with
  | zero => rfl
  | succ bound ih =>
    cases rest with
    | nil => rfl
    | cons t rest =>
      simp only [List.map_cons, callChain, Token.kind_plain_iff .openParen (by decide)]
      split
      · refine (items_respects hnested .tooManyArguments).bind rest fun arguments rest _ => ?_
        refine (expect_respects (by decide) .unclosedCall).bind rest fun _ rest _ => ?_
        have hcall : Expr.call (Transcription.plain.expr callee) (arguments.map Transcription.plain.expr) =
            Transcription.plain.expr (.call callee arguments) := by
          rw [Transcription.expr, Transcription.exprs_eq_map]
        have hrest := ih (.call callee arguments) rest
        rwa [← hcall] at hrest
      · rfl

theorem call_respects (bound : Nat) : Respects Transcription.plain.expr (call nested bound) := by
  intro rest
  simp only [call]
  refine (primary_respects hnested).bind rest fun callee rest _ => ?_
  exact callChain_respects hnested bound callee rest

theorem unary_respects (bound : Nat) : Respects Transcription.plain.expr (unary nested bound) := by
  intro rest
  induction rest with
  | nil => exact call_respects hnested bound []
  | cons t rest ih =>
    simp only [List.map_cons, unary, isUnaryOperator_plain]
    split
    · rename_i ht
      rw [ih]
      refine carry_bind ?_
      rintro ⟨operand, rest⟩ -
      simp only [along, unary_plain ht, carry]
    · exact call_respects hnested bound (t :: rest)

end

theorem leftChain_respects (level : Level) {operand : Parser Expr}
    (hoperand : Respects Transcription.plain.expr operand) (bound : Nat) (left : Expr) (rest : List Token) :
    leftChain level operand bound (Transcription.plain.expr left) (rest.map Token.plain) =
      carry (along Transcription.plain.expr) (leftChain level operand bound left rest) := by
  induction bound generalizing left rest with
  | zero => rfl
  | succ bound ih =>
    cases rest with
    | nil => rfl
    | cons t rest =>
      simp only [List.map_cons, leftChain, hasOperator_plain]
      split
      · rename_i ht
        refine hoperand.bind rest fun right rest _ => ?_
        rw [combine_plain ht]
        exact ih _ rest
      · rfl

theorem levels_respects {operand : Parser Expr} (hoperand : Respects Transcription.plain.expr operand) (bound : Nat)
    (below : List Level) : Respects Transcription.plain.expr (levels operand bound below) := by
  induction below with
  | nil => exact hoperand
  | cons level below ih =>
    intro rest
    simp only [levels]
    refine ih.bind rest fun left rest _ => ?_
    exact leftChain_respects level ih bound left rest

theorem expression_respects (bound : Nat) : Respects Transcription.plain.expr (expression bound) := by
  induction bound with
  | zero => intro rest; rfl
  | succ bound ih =>
    intro rest
    simp only [expression]
    refine (levels_respects (unary_respects ih bound) bound Level.all).bind rest fun left rest _ => ?_
    cases rest with
    | nil => rfl
    | cons t after =>
      simp only [List.map_cons, Token.kind_plain_iff .equals (by decide)]
      split
      · refine ih.bind after fun value rest _ => ?_
        cases left <;> simp only [along, Transcription.expr, carry] <;> rfl
      · rfl

/-! ### Statements -/

section

variable {statement : Parser Stmt} (hstatement : Respects Transcription.plain.stmt statement)
include hstatement

theorem statementsInBlock_respects (bound : Nat) :
    Respects Transcription.plain.block (statementsInBlock statement bound) := by
  induction bound with
  | zero => intro rest; rfl
  | succ bound ih =>
    intro rest
    cases rest with
    | nil => rfl
    | cons t rest =>
      simp only [List.map_cons, statementsInBlock, Token.kind_plain_iff .closeBrace (by decide)]
      split
      · rfl
      · refine hstatement.bind (t :: rest) fun first rest _ => ?_
        refine ih.bind rest fun more rest _ => ?_
        simp only [along, carry, Transcription.block]

theorem block_respects (bound : Nat) : Respects Transcription.plain.block (block statement bound) := by
  intro rest
  simp only [block]
  refine (expect_respects (by decide) .expectedOpenBrace).bind rest fun _ rest _ => ?_
  refine (statementsInBlock_respects hstatement bound).bind rest fun body rest _ => ?_
  refine (expect_respects (by decide) .expectedCloseBrace).bind rest fun _ rest _ => ?_
  rfl

end

theorem parameter_respects : Respects id parameter := by
  intro rest
  simp only [parameter]
  refine (expect_respects (by decide) .expectedParameterName).bind rest fun name rest hname => ?_
  rw [skipAnnotation_plain rest]
  refine carry_bind ?_
  intro rest _
  simp only [along, carry, Token.lexeme_plain_of_identifier (kind_of_expect hname), id_eq]

theorem declaration_respects {expr : Parser Expr} (hexpr : Respects Transcription.plain.expr expr) (kind : DeclKind)
    (rest : List Token) : declaration expr kind.plain (rest.map Token.plain) =
      carry (along Transcription.plain.stmt) (declaration expr kind rest) := by
  have hconstant : kind.plain.isConstant = kind.isConstant := Transcription.plain.isConstant_kind kind
  simp only [declaration]
  refine (expect_respects (by decide) .expectedVariableName).bind rest fun name rest hname => ?_
  have hlexeme := Token.lexeme_plain_of_identifier (kind_of_expect hname)
  rw [skipAnnotation_plain rest]
  refine carry_bind ?_
  intro rest _
  cases rest with
  | nil =>
    simp only [List.map_nil, hconstant, hlexeme]
    split <;> simp only [carry, along, Transcription.stmt, Option.map_none] <;> rfl
  | cons t after =>
    simp only [List.map_cons, hconstant, hlexeme, Token.kind_plain_iff .equals (by decide)]
    split
    · refine hexpr.bind after fun value rest _ => ?_
      simp only [carry, along, Transcription.stmt, Option.map_some]
      rfl
    · split <;> simp only [carry, along, Transcription.stmt, Option.map_none] <;> rfl

section

variable {body : Parser Block} (hbody : Respects Transcription.plain.block body)
include hbody

theorem function_respects : Respects Transcription.plain.stmt (function body) := by
  intro rest
  simp only [function]
  refine (expect_respects (by decide) .expectedFunctionName).bind rest fun name rest hname => ?_
  have hlexeme := Token.lexeme_plain_of_identifier (kind_of_expect hname)
  simp only [hlexeme]
  refine (expect_respects (by decide) .expectedParen).bind rest fun _ rest _ => ?_
  refine (items_respects parameter_respects .tooManyParameters).bind rest fun parameters rest _ => ?_
  refine (expect_respects (by decide) .unclosedParen).bind rest fun _ rest _ => ?_
  rw [skipAnnotation_plain rest]
  refine carry_bind ?_
  intro rest _
  refine hbody.bind rest fun statements rest _ => ?_
  simp only [carry, along, Transcription.stmt]
  rfl

variable {expr : Parser Expr} (hexpr : Respects Transcription.plain.expr expr)
include hexpr

theorem branches_respects (bound : Nat) :
    Respects (fun p => (Transcription.plain.arms p.1, Transcription.plain.otherwise p.2)) (branches expr body bound) := by
  induction bound with
  | zero => intro rest; rfl
  | succ bound ih =>
    intro rest
    match rest with
    | [] => rfl
    | [t] =>
      simp only [List.map_cons, List.map_nil, branches, Token.kind_plain_iff .elseKeyword (by decide)]
      split
      · exact hbody.bind [] fun statements rest _ => rfl
      · rfl
    | t :: u :: after =>
      simp only [List.map_cons, branches, Token.kind_plain_iff .elseKeyword (by decide),
        Token.kind_plain_iff .ifKeyword (by decide)]
      split
      · split
        · refine hexpr.bind after fun check rest _ => ?_
          refine hbody.bind rest fun statements rest _ => ?_
          refine ih.bind rest fun ⟨arms, otherwise⟩ rest _ => ?_
          rfl
        · exact hbody.bind (u :: after) fun statements rest _ => rfl
      · rfl

theorem conditional_respects (bound : Nat) : Respects Transcription.plain.stmt (conditional expr body bound) := by
  intro rest
  simp only [conditional]
  refine hexpr.bind rest fun check rest _ => ?_
  refine hbody.bind rest fun statements rest _ => ?_
  refine (branches_respects hbody hexpr bound).bind rest fun ⟨arms, otherwise⟩ rest _ => ?_
  simp only [carry, along, Transcription.stmt]

theorem loop_respects : Respects Transcription.plain.stmt (loop expr body) := by
  intro rest
  simp only [loop]
  refine hexpr.bind rest fun check rest _ => ?_
  refine hbody.bind rest fun statements rest _ => ?_
  simp only [carry, along, Transcription.stmt]

end

theorem closed_respects (result : Except Failure (Stmt × List Token)) :
    closed (carry (along Transcription.plain.stmt) result) = carry (along Transcription.plain.stmt) (closed result) := by
  simp only [closed]
  refine carry_bind ?_
  rintro ⟨s, rest⟩ -
  simp only [carry, along, skipSemicolon_plain]

theorem expressionStatement_respects {expr : Parser Expr} (hexpr : Respects Transcription.plain.expr expr) :
    Respects Transcription.plain.stmt (expressionStatement expr) := by
  intro rest
  simp only [expressionStatement]
  refine hexpr.bind rest fun e rest _ => ?_
  simp only [carry, along, Transcription.stmt]

theorem statement_respects (bound : Nat) : Respects Transcription.plain.stmt (statement bound) := by
  induction bound with
  | zero => intro rest; rfl
  | succ bound ih =>
    have hexpr := expression_respects (bound + 1)
    have hbody := block_respects ih bound
    have hopen : ∀ rest, closed (expressionStatement (expression (bound + 1)) (rest.map Token.plain)) =
        carry (along Transcription.plain.stmt) (closed (expressionStatement (expression (bound + 1)) rest)) := by
      intro rest
      rw [expressionStatement_respects hexpr rest, closed_respects]
    have hdeclaration : ∀ kind rest, closed (declaration (expression (bound + 1)) kind.plain (rest.map Token.plain)) =
        carry (along Transcription.plain.stmt) (closed (declaration (expression (bound + 1)) kind rest)) := by
      intro kind rest
      rw [declaration_respects hexpr kind rest, closed_respects]
    intro rest
    cases rest with
    | nil => exact hopen []
    | cons t after =>
      obtain ⟨kind, lexeme, position⟩ := t
      -- `final` is the one keyword that becomes another, and so does the kind of its declaration.
      cases kind with
      | varKeyword => exact hdeclaration .var after
      | constKeyword => exact hdeclaration .const after
      | finalKeyword => exact hdeclaration .final after
      | fnKeyword => exact function_respects hbody after
      | ifKeyword => exact conditional_respects hbody hexpr bound after
      | whileKeyword => exact loop_respects hbody hexpr after
      | _ => exact hopen (_ :: after)

/-! ### Programs -/

theorem synchronize_plain (rest : List Token) :
    synchronize (rest.map Token.plain) = (synchronize rest).map Token.plain := by
  induction rest with
  | nil => rfl
  | cons t rest ih =>
    cases rest with
    | nil =>
      simp only [List.map_cons, List.map_nil, synchronize, ite_self]
    | cons u after =>
      simp only [List.map_cons, synchronize, Token.kind_plain_iff .semicolon (by decide),
        Token.startsStatement_plain] at ih ⊢
      split
      · rfl
      · split
        · rfl
        · exact ih

theorem statements_plain {statement : Parser Stmt} (hstatement : Respects Transcription.plain.stmt statement)
    (bound : Nat) (rest : List Token) :
    statements statement bound (rest.map Token.plain) =
      (Transcription.plain.block (statements statement bound rest).1,
        (statements statement bound rest).2.map Failure.plain) := by
  induction bound generalizing rest with
  | zero => rfl
  | succ bound ih =>
    cases rest with
    | nil => rfl
    | cons t rest =>
      have hfirst := hstatement (t :: rest)
      rw [List.map_cons] at hfirst
      simp only [List.map_cons, statements, hfirst]
      cases statement (t :: rest) with
      | ok first =>
        obtain ⟨s, rest⟩ := first
        simp only [carry, along, ih rest, Transcription.block]
      | error failure =>
        have hrest : synchronize failure.plain.rest = (synchronize failure.rest).map Token.plain :=
          synchronize_plain failure.rest
        simp only [carry, hrest, ih, List.map_cons]

theorem body_plain (tokens : List Token) : body (tokens.map Token.plain) = (body tokens).map Token.plain := by
  have hend : (fun t => !isEnd t) ∘ Token.plain = fun t => !isEnd t := by
    funext t
    simp only [Function.comp, isEnd, Token.kind_plain_iff .endOfInput (by decide)]
  rw [body, List.takeWhile_map, hend, body]

end Parse

/-! ## Plain programs -/

/-- What the errors of two sequences of tokens can have in common, as the tokens themselves differ. -/
def ParseError.outline (e : ParseError) : ParseCause × Nat := (e.cause, e.index)

theorem Parse.outline_plain (tokens : List Token) (failure : Parse.Failure) :
    (failure.plain.toError (tokens.map Token.plain)).outline = (failure.toError tokens).outline := by
  simp only [ParseError.outline, Parse.Failure.toError, Parse.Failure.plain, Parse.body_plain, List.length_map]

theorem Program.ofTokens_plain (tokens : List Token) :
    (∃ errors errors', Program.ofTokens tokens = .error errors ∧
      Program.ofTokens (tokens.map Token.plain) = .error errors' ∧
      errors'.map ParseError.outline = errors.map ParseError.outline) ∨
    ∃ program, Program.ofTokens tokens = .ok program ∧
      Program.ofTokens (tokens.map Token.plain) = .ok (Transcription.plain.block program) := by
  have hstatements := Parse.statements_plain (Parse.statement_respects ((Parse.body tokens).length + 1))
    (Parse.body tokens).length (Parse.body tokens)
  simp only [Program.ofTokens, Parse.body_plain, List.length_map, hstatements]
  cases Parse.statements (Parse.statement ((Parse.body tokens).length + 1)) (Parse.body tokens).length
      (Parse.body tokens) with
  | mk program failures =>
    cases failures with
    | nil => exact .inr ⟨program, rfl, rfl⟩
    | cons failure failures =>
      refine .inl ⟨_, _, rfl, rfl, ?_⟩
      rw [List.map_map, List.map_map, List.map_map]
      exact List.map_congr_left fun f _ => Parse.outline_plain tokens f

end BlockScript
