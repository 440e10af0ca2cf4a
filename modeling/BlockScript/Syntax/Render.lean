import BlockScript.Syntax.Tree
import BlockScript.Number.Decimal

/-! # Trees as text

A tree is shown as nested parentheses: the operator or the name of the construct first, then its parts. -/

namespace BlockScript

def parenthesized (parts : List Bytes) : Bytes := ascii "(" ++ Bytes.join (ascii " ") parts ++ ascii ")"

def bracketed (type : Bytes) : Bytes := ascii "<" ++ type ++ ascii ">"

def missingText : Bytes := bracketed (ascii "nil")

namespace Expr

mutual

def text : Expr → Bytes
  | number value => Decimal.text value
  | string value => ascii "\"" ++ value ++ ascii "\""
  | identifier name => name
  | assign name value => parenthesized [ascii "set", name, value.text]
  | binary operator left right => parenthesized [operator.lexeme, left.text, right.text]
  | logical operator left right => parenthesized [operator.lexeme, left.text, right.text]
  | unary operator operand => parenthesized [operator.lexeme, operand.text]
  | call callee arguments => parenthesized (ascii "call" :: callee.text :: texts arguments)
  | missing => missingText
  | foreign type => bracketed type

def texts : List Expr → List Bytes
  | [] => []
  | e :: rest => e.text :: texts rest

end

end Expr

namespace Stmt

def scope (statements : List Bytes) : Bytes := parenthesized (ascii "scope" :: statements)

mutual

def text : Stmt → Bytes
  | program body => parenthesized (ascii "program" :: texts body)
  | declare kind name none => parenthesized [kind.text, name]
  | declare kind name (some value) => parenthesized [kind.text, name, value.text]
  | function name parameters body =>
    let list := ascii "(" ++ Bytes.join (ascii ", ") parameters ++ ascii ")"
    parenthesized (ascii "fn" :: name :: list :: texts body)
  | ifElse check body arms otherwise =>
    let first := parenthesized [ascii "then", check.text, scope (texts body)]
    parenthesized (ascii "if" :: first :: (armTexts arms ++ elseTexts otherwise))
  | whileLoop check body => parenthesized [ascii "while", check.text, scope (texts body)]
  | expr value => value.text
  | missing => missingText
  | foreign type => bracketed type

def texts : List Stmt → List Bytes
  | [] => []
  | s :: rest => s.text :: texts rest

def armTexts : List (Expr × List Stmt) → List Bytes
  | [] => []
  | (check, body) :: rest => parenthesized [ascii "elif", check.text, scope (texts body)] :: armTexts rest

def elseTexts : Option (List Stmt) → List Bytes
  | none => []
  | some body => [parenthesized [ascii "else", scope (texts body)]]

end

end Stmt

def Program.text (program : Program) : Bytes := (Stmt.program program).text

end BlockScript
