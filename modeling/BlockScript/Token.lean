import BlockScript.Text.Quoted

/-! # Tokens

A token is a kind, the text it was written as, and the position where it begins. -/

namespace BlockScript

/-- A place in a source: the offset counts bytes from zero, line and column count from one, and a column is one
character wide. -/
structure Position where
  offset : Int
  line : Int
  column : Int
  deriving DecidableEq, Repr

namespace Position

def start : Position := ⟨0, 1, 1⟩

def nowhere : Position := ⟨0, 0, 0⟩

def after (p : Position) (g : Glyph) : Position :=
  let offset := p.offset + g.bytes.length
  if g.char = '\n' then ⟨offset, p.line + 1, 1⟩ else ⟨offset, p.line, p.column + 1⟩

def afterAll (p : Position) (gs : List Glyph) : Position := gs.foldl after p

def text (p : Position) : Bytes := Bytes.ofInt p.line ++ ascii ":" ++ Bytes.ofInt p.column

def heading (p : Position) : Bytes :=
  ascii "Error on line " ++ Bytes.ofInt p.line ++ ascii ", column " ++ Bytes.ofInt p.column ++ ascii "\n\t"

end Position

inductive TokenKind where
  | endOfInput
  | number
  | string
  | identifier
  | varKeyword
  | constKeyword
  | finalKeyword
  | fnKeyword
  | returnKeyword
  | ifKeyword
  | elseKeyword
  | whileKeyword
  | and
  | or
  | numberType
  | stringType
  | arrayType
  | booleanType
  | objectType
  | dynamicType
  | equals
  | semicolon
  | comma
  | dot
  | colon
  | openParen
  | closeParen
  | openBrace
  | closeBrace
  | openBracket
  | closeBracket
  | arithmetic
  | equality
  | notEquality
  | greaterThan
  | lessThan
  | greaterOrEqual
  | lessOrEqual
  | exclamation
  /-- A kind that the language does not have. -/
  | other (code : Int)
  deriving DecidableEq, Repr

namespace TokenKind

/-- The kinds of the language. They are numbered in this order, beginning at `firstCode`. -/
def known : List TokenKind :=
  [.endOfInput, .number, .string, .identifier, .varKeyword, .constKeyword, .finalKeyword, .fnKeyword,
   .returnKeyword, .ifKeyword, .elseKeyword, .whileKeyword, .and, .or, .numberType, .stringType, .arrayType,
   .booleanType, .objectType, .dynamicType, .equals, .semicolon, .comma, .dot, .colon, .openParen, .closeParen,
   .openBrace, .closeBrace, .openBracket, .closeBracket, .arithmetic, .equality, .notEquality, .greaterThan,
   .lessThan, .greaterOrEqual, .lessOrEqual, .exclamation]

def firstCode : Int := -1

def ofCode (code : Int) : TokenKind :=
  if code < firstCode then .other code else known.getD (code - firstCode).toNat (.other code)

def name : TokenKind → Bytes
  | .endOfInput => ascii "EndOfInput"
  | .number => ascii "Number"
  | .string => ascii "String"
  | .identifier => ascii "Identifier"
  | .varKeyword => ascii "Let"
  | .constKeyword => ascii "Const"
  | .finalKeyword => ascii "Final"
  | .fnKeyword => ascii "Fn"
  | .returnKeyword => ascii "Return"
  | .ifKeyword => ascii "If"
  | .elseKeyword => ascii "Else"
  | .whileKeyword => ascii "While"
  | .and => ascii "And"
  | .or => ascii "Or"
  | .numberType => ascii "NumberType"
  | .stringType => ascii "StringType"
  | .arrayType => ascii "ArrayType"
  | .booleanType => ascii "BooleanType"
  | .objectType => ascii "ObjectType"
  | .dynamicType => ascii "DynamicType"
  | .equals => ascii "Equals"
  | .semicolon => ascii "Semicolon"
  | .comma => ascii "Comma"
  | .dot => ascii "Dot"
  | .colon => ascii "Colon"
  | .openParen => ascii "OpenParen"
  | .closeParen => ascii "CloseParen"
  | .openBrace => ascii "OpenBrace"
  | .closeBrace => ascii "CloseBrace"
  | .openBracket => ascii "OpenBracket"
  | .closeBracket => ascii "CloseBracket"
  | .arithmetic => ascii "BinaryOperator"
  | .equality => ascii "Equality"
  | .notEquality => ascii "NotEquality"
  | .greaterThan => ascii "GreaterThan"
  | .lessThan => ascii "LessThan"
  | .greaterOrEqual => ascii "GreaterOrEqual"
  | .lessOrEqual => ascii "LessOrEqual"
  | .exclamation => ascii "Exclamation"
  | .other code => ascii "TokenType(" ++ Bytes.ofInt code ++ ascii ")"

def ofName? (name : Bytes) : Option TokenKind := known.find? fun kind => kind.name = name

def isTypeName (kind : TokenKind) : Bool :=
  kind ∈ [.numberType, .stringType, .arrayType, .booleanType, .objectType, .dynamicType]

def startsStatement (kind : TokenKind) : Bool :=
  kind ∈ [.varKeyword, .constKeyword, .finalKeyword, .fnKeyword, .ifKeyword, .whileKeyword, .returnKeyword]

end TokenKind

structure Token where
  kind : TokenKind
  lexeme : Bytes
  position : Position
  deriving DecidableEq, Repr

namespace Token

def endOfInput (p : Position) : Token := ⟨.endOfInput, ascii "EndOfFile", p⟩

def text (t : Token) : Bytes := t.kind.name ++ ascii " " ++ Quoted.text t.lexeme

end Token

end BlockScript
