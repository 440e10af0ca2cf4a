import BlockScript.Token
import BlockScript.Text.Letter

/-! # From source text to tokens

A source is cut into pieces from left to right: tokens, and the blanks and comments between them. How far a piece
reaches depends only on the characters from its beginning on, and every piece takes at least one of them. The first
character that begins no piece ends the work with an error. -/

namespace BlockScript

inductive LexCause where
  | illegalCharacter
  | unclosedString
  | loneOperator
  deriving DecidableEq, Repr

def LexCause.text : LexCause → Bytes
  | .illegalCharacter => ascii "Illegal character"
  | .unclosedString => ascii "Closing \" was expected"
  | .loneOperator => ascii "Operator must be doubled"

structure LexError where
  cause : LexCause
  char : Char
  position : Position
  deriving DecidableEq, Repr

def LexError.message (e : LexError) : Bytes :=
  e.position.heading ++ e.cause.text ++ ascii ": " ++ Quoted.char e.char

/-! ## Character classes -/

namespace Source

inductive Front where
  | symbol (kind : TokenKind)
  /-- A symbol that becomes another one with an equals sign behind it. -/
  | comparison (alone withEquals : TokenKind)
  | doubled (kind : TokenKind)
  | comment
  | blank
  | quote
  | digit
  | letter
  | illegal
  deriving DecidableEq, Repr

def isDigit (c : Char) : Bool := '0' ≤ c && c ≤ '9'

def continuesWord (c : Char) : Bool := Letter.isLetter c || isDigit c || c = '_'

def front (c : Char) : Front :=
  match c with
  | '(' => .symbol .openParen
  | ')' => .symbol .closeParen
  | '{' => .symbol .openBrace
  | '}' => .symbol .closeBrace
  | '[' => .symbol .openBracket
  | ']' => .symbol .closeBracket
  | ':' => .symbol .colon
  | ';' => .symbol .semicolon
  | ',' => .symbol .comma
  | '.' => .symbol .dot
  | '+' | '-' | '*' | '/' | '%' => .symbol .arithmetic
  | '=' => .comparison .equals .equality
  | '!' => .comparison .exclamation .notEquality
  | '>' => .comparison .greaterThan .greaterOrEqual
  | '<' => .comparison .lessThan .lessOrEqual
  | '|' => .doubled .or
  | '&' => .doubled .and
  | '#' => .comment
  | ' ' | '\t' | '\r' | '\n' => .blank
  | '"' => .quote
  | c => if isDigit c then .digit else if Letter.isLetter c then .letter else .illegal

def reserved : List (Bytes × TokenKind) :=
  [(ascii "var", .varKeyword), (ascii "const", .constKeyword), (ascii "final", .finalKeyword),
   (ascii "fn", .fnKeyword), (ascii "return", .returnKeyword), (ascii "if", .ifKeyword), (ascii "else", .elseKeyword),
   (ascii "while", .whileKeyword), (ascii "and", .and), (ascii "or", .or), (ascii "boolean", .booleanType),
   (ascii "number", .numberType), (ascii "string", .stringType), (ascii "array", .arrayType),
   (ascii "object", .objectType), (ascii "dynamic", .dynamicType)]

def wordKind (word : Bytes) : TokenKind := (reserved.lookup word).getD .identifier

/-! ## Comments -/

def defaultTerminator : Bytes := ascii "\n"

/-- The empty text stands for the default, since it would end every comment at once. -/
def terminatorOr (terminator : Bytes) : Bytes := if terminator.isEmpty then defaultTerminator else terminator

def beginsWith : (head : Bytes) → List Glyph → Bool
  | [], _ => true
  | _ :: _, [] => false
  | b :: head, g :: rest =>
    if g.bytes.isPrefixOf (b :: head) then beginsWith ((b :: head).drop g.bytes.length) rest
    else (b :: head).isPrefixOf g.bytes

def lengthBefore (terminator : Bytes) : List Glyph → Nat
  | [] => 0
  | g :: rest => if beginsWith terminator (g :: rest) then 0 else lengthBefore terminator rest + 1

/-- How many glyphs a comment takes behind its number sign: its text, and then as many as the terminator has. -/
def commentLength (terminator : Bytes) (rest : List Glyph) : Nat :=
  lengthBefore terminator rest + (Utf8.glyphs terminator).length

/-! ## Pieces -/

/-- A piece of a source: the token it is, if it is one, and how many glyphs it takes behind its first. -/
structure Piece where
  token? : Option (TokenKind × Bytes)
  extra : Nat
  deriving DecidableEq, Repr

def Piece.verbatim (kind : TokenKind) (g : Glyph) (more : List Glyph) : Piece :=
  ⟨some (kind, Utf8.text (g :: more)), more.length⟩

def piece (terminator : Bytes) (g : Glyph) (rest : List Glyph) : Except LexCause Piece :=
  match front g.char with
  | .symbol kind => .ok (.verbatim kind g [])
  | .comparison alone withEquals =>
    match rest with
    | h :: _ => if h.char = '=' then .ok (.verbatim withEquals g [h]) else .ok (.verbatim alone g [])
    | [] => .ok (.verbatim alone g [])
  | .doubled kind =>
    match rest with
    | h :: _ => if h.char = g.char then .ok (.verbatim kind g [h]) else .error .loneOperator
    | [] => .error .loneOperator
  | .comment => .ok ⟨none, commentLength terminator rest⟩
  | .blank => .ok ⟨none, 0⟩
  | .quote =>
    let body := rest.takeWhile fun h => h.char ≠ '"'
    if body.length = rest.length then .error .unclosedString
    else .ok ⟨some (.string, Utf8.text body), body.length + 1⟩
  | .digit => .ok (.verbatim .number g (rest.takeWhile fun h => isDigit h.char))
  | .letter =>
    let more := rest.takeWhile fun h => continuesWord h.char
    .ok (.verbatim (wordKind (Utf8.text (g :: more))) g more)
  | .illegal => .error .illegalCharacter

def tokensFrom (terminator : Bytes) (p : Position) : List Glyph → Except LexError (List Token)
  | [] => .ok [.endOfInput p]
  | g :: rest =>
    match piece terminator g rest with
    | .error cause => .error ⟨cause, g.char, p⟩
    | .ok ⟨token?, extra⟩ =>
      match tokensFrom terminator (p.afterAll (g :: rest.take extra)) (rest.drop extra) with
      | .error e => .error e
      | .ok tokens =>
        match token? with
        | some (kind, lexeme) => .ok (⟨kind, lexeme, p⟩ :: tokens)
        | none => .ok tokens
termination_by gs => gs.length
decreasing_by simp only [List.length_drop, List.length_cons]; omega

def tokens (source : Bytes) (terminator : Bytes) : Except LexError (List Token) :=
  tokensFrom (terminatorOr terminator) .start (Utf8.glyphs source)

end Source

end BlockScript
