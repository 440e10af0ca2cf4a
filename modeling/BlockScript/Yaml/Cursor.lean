import BlockScript.Yaml.Encoding

/-! # A place in a YAML stream

A stream is a sequence of characters read from left to right. A cursor is what is left of it together with the place
reached, since indentation and lines decide how the stream is read. -/

namespace BlockScript.Yaml

def isBlank (c : Char) : Bool := c = ' ' || c = '\t'

def isBreak (c : Char) : Bool := c = '\n' || c = '\r' || c.toNat ∈ [0x85, 0x2028, 0x2029]

/-- Lines count from one, columns from zero. -/
structure Mark where
  index : Nat
  line : Nat
  column : Nat
  deriving DecidableEq, Repr

structure Cursor where
  rest : List Char
  mark : Mark

namespace Cursor

def start (chars : List Char) : Cursor := ⟨chars, 0, 1, 0⟩

def peek? (c : Cursor) : Option Char := c.rest.head?

def line (c : Cursor) : Nat := c.mark.line

def column (c : Cursor) : Nat := c.mark.column

def skip (c : Cursor) (count : Nat) : Cursor :=
  ⟨c.rest.drop count, c.mark.index + count, c.mark.line, c.mark.column + count⟩

def skipWhile (c : Cursor) (p : Char → Bool) : Cursor := c.skip (c.rest.takeWhile p).length

def skipBreak (c : Cursor) : Cursor :=
  match c.rest with
  | '\r' :: '\n' :: rest => ⟨rest, c.mark.index + 2, c.mark.line + 1, 0⟩
  | _ :: rest => ⟨rest, c.mark.index + 1, c.mark.line + 1, 0⟩
  | [] => c

def endLine (c : Cursor) : Cursor := ⟨c.rest, c.mark.index, c.mark.line + 1, 0⟩

def breakText (c : Char) : Char := if c.toNat ∈ [0x2028, 0x2029] then c else '\n'

def atEnd (c : Cursor) : Bool := c.rest.isEmpty

def blankAt (c : Cursor) (offset : Nat) : Bool := (c.rest.drop offset).head?.all fun ch => isBlank ch || isBreak ch

def atBlank (c : Cursor) : Bool := c.peek?.any isBlank

def atBreak (c : Cursor) : Bool := c.peek?.any isBreak

def atDocumentMark (c : Cursor) (mark : String) : Bool :=
  c.column = 0 && mark.toList.isPrefixOf c.rest && c.blankAt 3

def atAnyDocumentMark (c : Cursor) : Bool := c.atDocumentMark "---" || c.atDocumentMark "..."

end Cursor

end BlockScript.Yaml
