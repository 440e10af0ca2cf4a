import BlockScript.Proofs.Grammar

/-!
# Parsing as a walk

The parser hands the tokens that are left from function to function. Seen from
the whole sequence it walks along it with a cursor: it looks at the token under
the cursor or at the one it has just passed, and steps ahead. Here is the
parser in these terms. Every look and every step is checked, and so is the
number of rounds that a loop takes; what the checks would report is a misstep.
-/

namespace BlockScript

inductive Misstep where
  | outside
  /-- The parser steps over a mark for the end of input. -/
  | pastEnd
  /-- A loop or a recursion goes on beyond its bound. -/
  | endless
  deriving DecidableEq, Repr

inductive Stop where
  | failed (error : ParseError)
  | misstep (what : Misstep)
  deriving DecidableEq, Repr

/-- The state is the cursor. It stays where it is when a walk ends early. -/
abbrev Walk := EStateM Stop Nat

namespace Walk

open Parse (Level isEnd isUnaryOperator maxItems)

variable (tokens : List Token) {α : Type}

/-! ## Single tokens -/

def endless : Walk α := throw (.misstep .endless)

def tokenAt (i : Nat) : Walk Token :=
  match tokens[i]? with
  | some t => return t
  | none => throw (.misstep .outside)

def peek : Walk Token := do tokenAt tokens (← get)

def previous : Walk Token := do
  match ← get with
  | 0 => throw (.misstep .outside)
  | i + 1 => tokenAt tokens i

def step : Walk Unit := do
  if isEnd (← peek tokens) then throw (.misstep .pastEnd)
  else modify (· + 1)

def accept (p : Token → Bool) : Walk Bool := do
  if p (← peek tokens) then
    step tokens
    return true
  else return false

def acceptKind (kind : TokenKind) : Walk Bool := accept tokens fun t => t.kind = kind

def fail (cause : ParseCause) : Walk α := do
  let t ← peek tokens
  throw (.failed ⟨cause, t, ← get⟩)

def failBehind (cause : ParseCause) : Walk α := do
  let t ← previous tokens
  throw (.failed ⟨cause, t, (← get) - 1⟩)

def expect (kind : TokenKind) (cause : ParseCause) : Walk Token := do
  if ← acceptKind tokens kind then previous tokens else fail tokens cause

def semicolon : Walk Unit := do
  let _ ← acceptKind tokens .semicolon

def typeMark : Walk Unit := do
  if ← acceptKind tokens .colon then
    if ← accept tokens fun t => t.kind.isTypeName then return () else fail tokens .expectedType
  else return ()

/-! ## Lists between parentheses -/

def commaSeparated (item : Walk α) (tooMany : ParseCause) : (room : Nat) → Walk (List α)
  | 0 => fail tokens tooMany
  | room + 1 => do
    let first ← item
    if ← acceptKind tokens .comma then
      let more ← commaSeparated item tooMany room
      return first :: more
    else return [first]

def items (item : Walk α) (tooMany : ParseCause) : Walk (List α) := do
  if (← peek tokens).kind = .closeParen then return [] else commaSeparated tokens item tooMany maxItems

/-! ## Expressions -/

def numeral : Walk Expr := do
  match Numeral.read? (← previous tokens).lexeme with
  | some value => return .number value
  | none => failBehind tokens .invalidNumber

def primary (nested : Walk Expr) : Walk Expr := do
  if ← acceptKind tokens .number then numeral tokens
  else if ← acceptKind tokens .string then return .string (← previous tokens).lexeme
  else if ← acceptKind tokens .identifier then return .identifier (← previous tokens).lexeme
  else if ← acceptKind tokens .openParen then
    let e ← nested
    let _ ← expect tokens .closeParen .unclosedParen
    return e
  else fail tokens .undefinedExpression

def callChain (nested : Walk Expr) : (bound : Nat) → Expr → Walk Expr
  | 0, _ => endless
  | bound + 1, callee => do
    if ← acceptKind tokens .openParen then
      let arguments ← items tokens nested .tooManyArguments
      let _ ← expect tokens .closeParen .unclosedCall
      callChain nested bound (.call callee arguments)
    else return callee

def call (nested : Walk Expr) (bound : Nat) : Walk Expr := do
  let callee ← primary tokens nested
  callChain tokens nested bound callee

def unary (operand : Walk Expr) : (bound : Nat) → Walk Expr
  | 0 => endless
  | bound + 1 => do
    if ← accept tokens isUnaryOperator then
      let operator ← previous tokens
      let inner ← unary operand bound
      return .unary operator inner
    else operand

def leftChain (level : Level) (operand : Walk Expr) : (bound : Nat) → Expr → Walk Expr
  | 0, _ => endless
  | bound + 1, left => do
    if ← accept tokens level.hasOperator then
      let operator ← previous tokens
      let right ← operand
      leftChain level operand bound (level.combine operator left right)
    else return left

def levels (operand : Walk Expr) (bound : Nat) : List Level → Walk Expr
  | [] => operand
  | level :: tighter => do
    let left ← levels operand bound tighter
    leftChain tokens level (levels operand bound tighter) bound left

def expression : (bound : Nat) → Walk Expr
  | 0 => endless
  | bound + 1 => do
    let nested := expression bound
    let left ← levels tokens (unary tokens (call tokens nested (bound + 1)) (bound + 1)) (bound + 1) Level.all
    if ← acceptKind tokens .equals then
      let equals ← previous tokens
      let site := (← get) - 1
      let value ← nested
      match left with
      | .identifier name => return .assign name value
      | _ => throw (.failed ⟨.invalidTarget, equals, site⟩)
    else return left

/-! ## Statements -/

def statementsInBlock (statement : Walk Stmt) : (bound : Nat) → Walk (List Stmt)
  | 0 => endless
  | bound + 1 => do
    let t ← peek tokens
    if t.kind = .closeBrace || isEnd t then return []
    else
      let first ← statement
      let more ← statementsInBlock statement bound
      return first :: more

def block (statement : Walk Stmt) (bound : Nat) : Walk Block := do
  let _ ← expect tokens .openBrace .expectedOpenBrace
  let body ← statementsInBlock tokens statement bound
  let _ ← expect tokens .closeBrace .expectedCloseBrace
  return body

def declaration (expr : Walk Expr) : Walk Stmt := do
  let kind := ((← previous tokens).declKind?).getD .var
  let name ← expect tokens .identifier .expectedVariableName
  typeMark tokens
  if ← acceptKind tokens .equals then
    let value ← expr
    return .declare kind name.lexeme (some value)
  else if kind.isConstant then fail tokens .constantWithoutValue
  else return .declare kind name.lexeme none

def parameter : Walk Name := do
  let name ← expect tokens .identifier .expectedParameterName
  typeMark tokens
  return name.lexeme

def function (body : Walk Block) : Walk Stmt := do
  let name ← expect tokens .identifier .expectedFunctionName
  let _ ← expect tokens .openParen .expectedParen
  let parameters ← items tokens (parameter tokens) .tooManyParameters
  let _ ← expect tokens .closeParen .unclosedParen
  typeMark tokens
  let statements ← body
  return .function name.lexeme parameters statements

def branches (expr : Walk Expr) (body : Walk Block) : (bound : Nat) → Walk (List (Expr × Block) × Option Block)
  | 0 => endless
  | bound + 1 => do
    if ← acceptKind tokens .elseKeyword then
      if ← acceptKind tokens .ifKeyword then
        let check ← expr
        let statements ← body
        let (arms, otherwise) ← branches expr body bound
        return ((check, statements) :: arms, otherwise)
      else
        let statements ← body
        return ([], some statements)
    else return ([], none)

def conditional (expr : Walk Expr) (body : Walk Block) (bound : Nat) : Walk Stmt := do
  let check ← expr
  let statements ← body
  let (arms, otherwise) ← branches tokens expr body bound
  return .ifElse check statements arms otherwise

def loop (expr : Walk Expr) (body : Walk Block) : Walk Stmt := do
  let check ← expr
  let statements ← body
  return .whileLoop check statements

def closed (stmt : Walk Stmt) : Walk Stmt := do
  let s ← stmt
  semicolon tokens
  return s

def statement : (bound : Nat) → Walk Stmt
  | 0 => endless
  | bound + 1 => do
    let expr := expression tokens (bound + 1)
    let body := block tokens (statement bound) (bound + 1)
    if ← accept tokens fun t => t.declKind?.isSome then closed tokens (declaration tokens expr)
    else if ← acceptKind tokens .fnKeyword then function tokens body
    else if ← acceptKind tokens .ifKeyword then conditional tokens expr body (bound + 1)
    else if ← acceptKind tokens .whileKeyword then loop expr body
    else closed tokens (do return .expr (← expr))

/-! ## Programs -/

def synchronize : (bound : Nat) → Walk Unit
  | 0 => endless
  | bound + 1 => do
    if isEnd (← peek tokens) then return ()
    else
      step tokens
      if (← previous tokens).kind = .semicolon then return ()
      else if (← peek tokens).kind.startsStatement then return ()
      else synchronize bound

def round (bound : Nat) : Walk (Except ParseError Stmt) := fun i =>
  match statement tokens bound i with
  | .ok s j => .ok (.ok s) j
  | .error (.failed error) j => (do synchronize tokens bound; return .error error : Walk _) j
  | .error (.misstep what) j => .error (.misstep what) j

def rounds (bound : Nat) : (left : Nat) → Walk (List (Except ParseError Stmt))
  | 0 => endless
  | left + 1 => do
    if isEnd (← peek tokens) then return []
    else
      let first ← round tokens bound
      let more ← rounds bound left
      return first :: more

def errorsOf {ε : Type} (outcomes : List (Except ε α)) : List ε :=
  outcomes.filterMap fun | .error e => some e | .ok _ => none

@[simp] theorem errorsOf_ok {ε : Type} (a : α) (l : List (Except ε α)) : errorsOf (.ok a :: l) = errorsOf l := rfl

@[simp] theorem errorsOf_error {ε : Type} (e : ε) (l : List (Except ε α)) :
    errorsOf (.error e :: l) = e :: errorsOf l := rfl

theorem mem_errorsOf {ε : Type} {e : ε} {l : List (Except ε α)} : e ∈ errorsOf l ↔ .error e ∈ l := by
  simp only [errorsOf, List.mem_filterMap]
  constructor
  · rintro ⟨x, hx, heq⟩
    cases x <;> simp_all
  · intro h
    exact ⟨_, h, rfl⟩

def summary (outcomes : List (Except ParseError Stmt)) : Except (List ParseError) Program :=
  match errorsOf outcomes with
  | [] => .ok (outcomes.filterMap Except.toOption)
  | errors => .error errors

def marked : List Token := if tokens.getLast?.any isEnd then tokens else tokens ++ [.endOfInput .nowhere]

end Walk

end BlockScript
