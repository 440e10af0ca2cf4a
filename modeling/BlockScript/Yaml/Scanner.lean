import BlockScript.Yaml.Token

/-! # The state between two tokens

Whether a text is a key shows only at the colon behind it, so the place where a key may begin is remembered until then,
and no token from there on can be taken before that. Here are the steps that do not depend on the kind of a token: key
marks, indentation, blanks and comments. -/

namespace BlockScript.Yaml

structure KeyMark where
  possible : Bool
  required : Bool
  number : Nat
  mark : Mark

structure Scanner where
  cursor : Cursor
  /-- The ends of the blocks that have not been passed, and whether something follows that cannot be read. -/
  ends : List Nat
  broken : Bool
  /-- Whether there was a byte order mark at the cursor when a block was last read. -/
  marked : Bool
  bound : Nat
  queue : List Token
  taken : Nat
  /-- The columns of the open block collections, the innermost first. -/
  indents : List Nat
  key : KeyMark
  outerKeys : List KeyMark
  /-- The tokens that may turn out to be keys, the latest first. -/
  pending : List KeyMark
  keyAllowed : Bool

namespace Scanner

def byteOrderMark : Char := Char.ofNat 0xFEFF

def start (stream : Stream) : Scanner :=
  let cursor := Cursor.start stream.chars
  let key : KeyMark := ⟨false, false, 0, cursor.mark⟩
  let marked := cursor.peek? = some byteOrderMark
  ⟨cursor, stream.ends, stream.broken, marked, stream.chars.length + 4, [], 0, [], key, [], [], true⟩

def inFlow (s : Scanner) : Bool := !s.outerKeys.isEmpty

def column (s : Scanner) : Nat := s.cursor.column

def moveTo (s : Scanner) (cursor : Cursor) : Scanner := { s with cursor }

def allowKey (s : Scanner) (keyAllowed : Bool) : Scanner := { s with keyAllowed }

/-- Reads on until `count` characters stand behind the cursor or the stream ends. `marked` tells what a block would be
read at. -/
def load (s : Scanner) (count : Nat) (marked : Bool) : Option Scanner :=
  let needed := s.cursor.mark.index + count
  if s.ends.head?.all (fun n => needed ≤ n) && !(s.broken && s.ends.isEmpty) then some s
  else
    let ends := s.ends.dropWhile fun n => n < needed
    if ends.isEmpty && s.broken then none else some { s with ends, marked }

def demand (s : Scanner) (count : Nat) : Option Scanner := s.load count (s.cursor.peek? = some byteOrderMark)

def pass (s : Scanner) (count : Nat) : Option Scanner := s.load count false

def emit (s : Scanner) (kind : TokenKind) : Scanner := { s with queue := s.queue ++ [⟨kind, s.cursor.line⟩] }

def nextNumber (s : Scanner) : Nat := s.taken + s.queue.length

/-- Puts a token in front of the one with the given number; if that one has been taken, it comes last. -/
def insert (s : Scanner) (number : Nat) (token : Token) : Scanner :=
  let index := if s.taken ≤ number then number - s.taken else s.queue.length
  { s with queue := s.queue.take index ++ token :: s.queue.drop index }

def emitSymbol (s : Scanner) (kind : TokenKind) (width : Nat) : Scanner :=
  (s.emit kind).moveTo (s.cursor.skip width)

def settle (s : Scanner) (number : Nat) : Scanner :=
  { s with pending := s.pending.eraseP fun k => k.number = number }

def dropKey (s : Scanner) : Option Scanner :=
  if !s.key.possible then some s
  else if s.key.required then none
  else some ({ s with key := { s.key with possible := false } }.settle s.key.number)

def saveKey (s : Scanner) : Option Scanner :=
  if s.keyAllowed then do
    let s ← s.dropKey
    let required := !s.inFlow && s.indents.head? = some s.column
    let key : KeyMark := ⟨true, required, s.nextNumber, s.cursor.mark⟩
    some { s with key, pending := key :: s.pending }
  else some s

def maxDepth : Nat := 10000

def unindent (s : Scanner) (keep : Nat → Bool) : Scanner :=
  if s.inFlow then s
  else
    let closed := s.indents.takeWhile fun n => !keep n
    { s with
      indents := s.indents.drop closed.length
      queue := s.queue ++ closed.map fun _ => ⟨.blockEnd, s.cursor.line⟩ }

/-- Opens a block collection at a column to the right of all open ones; its token goes in front of the one with the
given number. -/
def indent (s : Scanner) (column number line : Nat) (kind : TokenKind) : Option Scanner :=
  if s.inFlow || s.indents.head?.any (fun n => column ≤ n) then some s
  else if maxDepth ≤ s.indents.length then none
  else some ({ s with indents := column :: s.indents }.insert number ⟨kind, line⟩)

def indentHere (s : Scanner) (kind : TokenKind) : Option Scanner :=
  s.indent s.column s.nextNumber s.cursor.line kind

/-! ## Comments and blanks -/

def commentReach : Nat := 512

def skipToComment : (bound : Nat) → Cursor → Cursor
  | 0, c => c
  | bound + 1, c =>
    if c.peek?.all fun ch => ch = '#' then c
    else skipToComment bound (if c.atBreak then c.skipBreak else c.skip 1)

def skipComments : (bound : Nat) → Cursor → Cursor
  | 0, c => c
  | bound + 1, c =>
    let c := c.skipWhile fun ch => !isBreak ch
    let gap := c.rest.takeWhile fun ch => ch ∈ [' ', '\t', '\n', '\r']
    if !gap.isEmpty && gap.length < commentReach && (c.rest.drop gap.length).head? = some '#' then
      skipComments bound (skipToComment bound c)
    else c

def skipLineComment (s : Scanner) : Scanner :=
  let blanks := (s.cursor.rest.takeWhile isBlank).length
  let s := (s.demand (min (blanks + 1) commentReach)).getD s
  if blanks < commentReach && (s.cursor.rest.drop blanks).head? = some '#' then
    s.moveTo (s.cursor.skipWhile fun ch => !isBreak ch)
  else s

/-- Passes over blanks, comments and line breaks. A new line allows a key outside flow collections, and a tab is no
blank where a key may begin. After a byte order mark the first character of a line does not count. -/
def skipGap : (bound : Nat) → Scanner → Option Scanner
  | 0, s => some s
  | bound + 1, s => do
    let s ← s.demand 1
    match s.cursor.peek? with
    | none => some s
    | some ch =>
      if (s.marked && s.column = 0) || ch = ' ' || (ch = '\t' && (s.inFlow || !s.keyAllowed)) then
        skipGap bound (s.moveTo (s.cursor.skip 1))
      else if ch = '#' then
        let s := s.moveTo (skipComments bound s.cursor)
        skipGap bound ((s.pass 2).getD s)
      else if isBreak ch then
        let s ← s.demand 2
        skipGap bound ((s.moveTo s.cursor.skipBreak).allowKey (s.keyAllowed || !s.inFlow))
      else some s

end Scanner

end BlockScript.Yaml
