import BlockScript.Syntax.Tree
import BlockScript.Number.Numeral

/-! # From tokens to trees

Parsing is by descent: every function takes the tokens that are left, without the mark for their end, and gives a tree
with the tokens left behind it. Nesting and repetition are bounded by a number that exceeds the count of tokens left
wherever a function is entered, so the bound is never reached.

A statement that makes no sense is recorded as an error, and the work goes on at the next statement. -/

namespace BlockScript

inductive ParseCause where
  | unclosedParen
  | unclosedCall
  | expectedParen
  | expectedOpenBrace
  | expectedCloseBrace
  | undefinedExpression
  | tooManyParameters
  | tooManyArguments
  | expectedVariableName
  | expectedFunctionName
  | expectedParameterName
  | expectedType
  | constantWithoutValue
  | invalidTarget
  | invalidNumber
  deriving DecidableEq, Repr

def ParseCause.text : ParseCause → Bytes
  | .unclosedParen => ascii "Expect ')' after expression"
  | .unclosedCall => ascii "Expect ')' after arguments"
  | .expectedParen => ascii "Expected '(' after function name"
  | .expectedOpenBrace => ascii "Expected '\x7b' before block"
  | .expectedCloseBrace => ascii "Expected '\x7d' after block"
  | .undefinedExpression => ascii "Undefined expression"
  | .tooManyParameters => ascii "Max number of parameters is 255"
  | .tooManyArguments => ascii "Max number of arguments is 255"
  | .expectedVariableName => ascii "Expected variable name"
  | .expectedFunctionName => ascii "Expected function name"
  | .expectedParameterName => ascii "Expected parameter name"
  | .expectedType => ascii "Expected type name after ':'"
  | .constantWithoutValue => ascii "Constant must be initialized"
  | .invalidTarget => ascii "Invalid assignment target"
  | .invalidNumber => ascii "Invalid number"

structure ParseError where
  cause : ParseCause
  token : Token
  index : Nat
  deriving DecidableEq, Repr

def ParseError.message (e : ParseError) : Bytes :=
  e.token.position.heading ++ e.cause.text ++ ascii ": " ++ e.token.lexeme

def ParseError.messages (errors : List ParseError) : Bytes := Bytes.join (ascii "\n") (errors.map message)

namespace Parse

/-- Why a statement cannot be parsed: `site` are the tokens from the offending one on, `rest` those from where the
parser stands. -/
structure Failure where
  cause : ParseCause
  site : List Token
  rest : List Token
  deriving DecidableEq, Repr

def Failure.here (cause : ParseCause) (rest : List Token) : Failure := ⟨cause, rest, rest⟩

abbrev Parser (α : Type) := List Token → Except Failure (α × List Token)

/-! ## Single tokens -/

def startsWith (kind : TokenKind) : List Token → Bool
  | t :: _ => t.kind = kind
  | [] => false

def expect (kind : TokenKind) (cause : ParseCause) : Parser Token
  | t :: rest => if t.kind = kind then .ok (t, rest) else .error (.here cause (t :: rest))
  | [] => .error (.here cause [])

def skipSemicolon : List Token → List Token
  | t :: rest => if t.kind = .semicolon then rest else t :: rest
  | [] => []

def skipAnnotation : List Token → Except Failure (List Token)
  | t :: rest =>
    if t.kind = .colon then
      match rest with
      | u :: after => if u.kind.isTypeName then .ok after else .error (.here .expectedType (u :: after))
      | [] => .error (.here .expectedType [])
    else .ok (t :: rest)
  | [] => .ok []

/-! ## Lists between parentheses -/

def maxItems : Nat := 255

/-- One or more items with commas between them; `room` is how many there may be. -/
def commaSeparated {α : Type} (item : Parser α) (tooMany : ParseCause) : (room : Nat) → Parser (List α)
  | 0, rest => .error (.here tooMany rest)
  | room + 1, rest => do
    let (first, rest) ← item rest
    match rest with
    | t :: after =>
      if t.kind = .comma then
        let (more, rest) ← commaSeparated item tooMany room after
        .ok (first :: more, rest)
      else .ok ([first], t :: after)
    | [] => .ok ([first], [])

def items {α : Type} (item : Parser α) (tooMany : ParseCause) : Parser (List α) := fun rest =>
  if startsWith .closeParen rest then .ok ([], rest) else commaSeparated item tooMany maxItems rest

/-! ## Expressions -/

inductive Level where
  | or
  | and
  | equality
  | comparison
  | additive
  | multiplicative
  deriving DecidableEq, Repr

namespace Level

def all : List Level := [.or, .and, .equality, .comparison, .additive, .multiplicative]

def hasOperator : Level → Token → Bool
  | .or, t => t.kind = .or
  | .and, t => t.kind = .and
  | .equality, t => t.kind ∈ [.equality, .notEquality]
  | .comparison, t => t.kind ∈ [.greaterThan, .greaterOrEqual, .lessThan, .lessOrEqual]
  | .additive, t => t.kind = .arithmetic && [ascii "+", ascii "-"].contains t.lexeme
  | .multiplicative, t => t.kind = .arithmetic && [ascii "*", ascii "/", ascii "%"].contains t.lexeme

def combine : Level → Token → Expr → Expr → Expr
  | .or | .and => .logical
  | _ => .binary

end Level

def isUnaryOperator (t : Token) : Bool := t.kind = .exclamation || (t.kind = .arithmetic && t.lexeme = ascii "-")

def primary (nested : Parser Expr) : Parser Expr
  | t :: rest =>
    match t.kind with
    | .number =>
      match Numeral.read? t.lexeme with
      | some value => .ok (.number value, rest)
      | none => .error ⟨.invalidNumber, t :: rest, rest⟩
    | .string => .ok (.string t.lexeme, rest)
    | .identifier => .ok (.identifier t.lexeme, rest)
    | .openParen => do
      let (e, rest) ← nested rest
      let (_, rest) ← expect .closeParen .unclosedParen rest
      .ok (e, rest)
    | _ => .error (.here .undefinedExpression (t :: rest))
  | [] => .error (.here .undefinedExpression [])

def callChain (nested : Parser Expr) : (bound : Nat) → Expr → Parser Expr
  | bound + 1, callee, t :: rest =>
    if t.kind = .openParen then do
      let (arguments, rest) ← items nested .tooManyArguments rest
      let (_, rest) ← expect .closeParen .unclosedCall rest
      callChain nested bound (.call callee arguments) rest
    else .ok (callee, t :: rest)
  | _, callee, rest => .ok (callee, rest)

def call (nested : Parser Expr) (bound : Nat) : Parser Expr := fun rest => do
  let (callee, rest) ← primary nested rest
  callChain nested bound callee rest

def unary (nested : Parser Expr) (bound : Nat) : Parser Expr
  | t :: rest =>
    if isUnaryOperator t then do
      let (operand, rest) ← unary nested bound rest
      .ok (.unary t operand, rest)
    else call nested bound (t :: rest)
  | [] => call nested bound []

def leftChain (level : Level) (operand : Parser Expr) : (bound : Nat) → Expr → Parser Expr
  | bound + 1, left, t :: rest =>
    if level.hasOperator t then do
      let (right, rest) ← operand rest
      leftChain level operand bound (level.combine t left right) rest
    else .ok (left, t :: rest)
  | _, left, rest => .ok (left, rest)

def levels (operand : Parser Expr) (bound : Nat) : List Level → Parser Expr
  | [], rest => operand rest
  | level :: tighter, rest => do
    let (left, rest) ← levels operand bound tighter rest
    leftChain level (levels operand bound tighter) bound left rest

/-- An assignment takes everything to its right, and only a name can be assigned to. -/
def expression : (bound : Nat) → Parser Expr
  | 0, rest => .error (.here .undefinedExpression rest)
  | bound + 1, rest => do
    let (left, rest) ← levels (unary (expression bound) bound) bound Level.all rest
    match rest with
    | t :: after =>
      if t.kind = .equals then
        let (value, rest) ← expression bound after
        match left with
        | .identifier name => .ok (.assign name value, rest)
        | _ => .error ⟨.invalidTarget, t :: after, rest⟩
      else .ok (left, t :: after)
    | [] => .ok (left, [])

/-! ## Statements -/

def statementsInBlock (statement : Parser Stmt) : (bound : Nat) → Parser (List Stmt)
  | bound + 1, t :: rest =>
    if t.kind = .closeBrace then .ok ([], t :: rest)
    else do
      let (first, rest) ← statement (t :: rest)
      let (more, rest) ← statementsInBlock statement bound rest
      .ok (first :: more, rest)
  | _, rest => .ok ([], rest)

def block (statement : Parser Stmt) (bound : Nat) : Parser Block := fun rest => do
  let (_, rest) ← expect .openBrace .expectedOpenBrace rest
  let (body, rest) ← statementsInBlock statement bound rest
  let (_, rest) ← expect .closeBrace .expectedCloseBrace rest
  .ok (body, rest)

def declaration (expr : Parser Expr) (kind : DeclKind) : Parser Stmt := fun rest => do
  let (name, rest) ← expect .identifier .expectedVariableName rest
  let rest ← skipAnnotation rest
  match rest with
  | t :: after =>
    if t.kind = .equals then
      let (value, rest) ← expr after
      .ok (.declare kind name.lexeme (some value), rest)
    else if kind.isConstant then .error (.here .constantWithoutValue (t :: after))
    else .ok (.declare kind name.lexeme none, t :: after)
  | [] => if kind.isConstant then .error (.here .constantWithoutValue []) else .ok (.declare kind name.lexeme none, [])

def parameter : Parser Name := fun rest => do
  let (name, rest) ← expect .identifier .expectedParameterName rest
  let rest ← skipAnnotation rest
  .ok (name.lexeme, rest)

def function (body : Parser Block) : Parser Stmt := fun rest => do
  let (name, rest) ← expect .identifier .expectedFunctionName rest
  let (_, rest) ← expect .openParen .expectedParen rest
  let (parameters, rest) ← items parameter .tooManyParameters rest
  let (_, rest) ← expect .closeParen .unclosedParen rest
  let rest ← skipAnnotation rest
  let (statements, rest) ← body rest
  .ok (.function name.lexeme parameters statements, rest)

def branches (expr : Parser Expr) (body : Parser Block) :
    (bound : Nat) → Parser (List (Expr × Block) × Option Block)
  | bound + 1, t :: rest =>
    if t.kind = .elseKeyword then
      match rest with
      | u :: after =>
        if u.kind = .ifKeyword then do
          let (check, rest) ← expr after
          let (statements, rest) ← body rest
          let ((arms, otherwise), rest) ← branches expr body bound rest
          .ok (((check, statements) :: arms, otherwise), rest)
        else do
          let (statements, rest) ← body (u :: after)
          .ok (([], some statements), rest)
      | [] => do
        let (statements, rest) ← body []
        .ok (([], some statements), rest)
    else .ok (([], none), t :: rest)
  | _, rest => .ok (([], none), rest)

def conditional (expr : Parser Expr) (body : Parser Block) (bound : Nat) : Parser Stmt := fun rest => do
  let (check, rest) ← expr rest
  let (statements, rest) ← body rest
  let ((arms, otherwise), rest) ← branches expr body bound rest
  .ok (.ifElse check statements arms otherwise, rest)

def loop (expr : Parser Expr) (body : Parser Block) : Parser Stmt := fun rest => do
  let (check, rest) ← expr rest
  let (statements, rest) ← body rest
  .ok (.whileLoop check statements, rest)

def closed (result : Except Failure (Stmt × List Token)) : Except Failure (Stmt × List Token) := do
  let (s, rest) ← result
  .ok (s, skipSemicolon rest)

def expressionStatement (expr : Parser Expr) : Parser Stmt := fun rest => do
  let (e, rest) ← expr rest
  .ok (.expr e, rest)

def statement : (bound : Nat) → Parser Stmt
  | 0, rest => .error (.here .undefinedExpression rest)
  | bound + 1, rest =>
    let expr := expression (bound + 1)
    let body := block (statement bound) bound
    match rest with
    | t :: after =>
      match t.kind with
      | .varKeyword => closed (declaration expr .var after)
      | .constKeyword => closed (declaration expr .const after)
      | .finalKeyword => closed (declaration expr .final after)
      | .fnKeyword => function body after
      | .ifKeyword => conditional expr body bound after
      | .whileKeyword => loop expr body after
      | _ => closed (expressionStatement expr (t :: after))
    | [] => closed (expressionStatement expr [])

/-! ## Programs -/

/-- Leaves out the remains of a statement that failed: at least one token, up to a semicolon or to a keyword that
begins a statement. -/
def synchronize : List Token → List Token
  | [] => []
  | t :: rest =>
    if t.kind = .semicolon then rest
    else match rest with
      | [] => []
      | u :: after => if u.kind.startsStatement then u :: after else synchronize (u :: after)

def statements (statement : Parser Stmt) : (bound : Nat) → List Token → List Stmt × List Failure
  | bound + 1, t :: rest =>
    match statement (t :: rest) with
    | .ok (s, rest) =>
      let (more, failures) := statements statement bound rest
      (s :: more, failures)
    | .error failure =>
      let (more, failures) := statements statement bound (synchronize failure.rest)
      (more, failure :: failures)
  | _, _ => ([], [])

def isEnd (t : Token) : Bool := t.kind = .endOfInput

def body (tokens : List Token) : List Token := tokens.takeWhile fun t => !isEnd t

def endMark (tokens : List Token) : Token := (tokens.find? isEnd).getD (.endOfInput .nowhere)

def Failure.toError (tokens : List Token) (failure : Failure) : ParseError :=
  ⟨failure.cause, failure.site.head?.getD (endMark tokens), (body tokens).length - failure.site.length⟩

end Parse

/-- The program that a sequence of tokens spells, or all errors in it. What follows the first mark for the end of input
does not count. -/
def Program.ofTokens (tokens : List Token) : Except (List ParseError) Program :=
  let body := Parse.body tokens
  match Parse.statements (Parse.statement (body.length + 1)) body.length body with
  | (program, []) => .ok program
  | (_, failures) => .error (failures.map (Parse.Failure.toError tokens))

end BlockScript
