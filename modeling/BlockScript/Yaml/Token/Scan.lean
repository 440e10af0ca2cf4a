import BlockScript.Yaml.Scanner

/-! # Cutting a YAML stream into tokens

Tokens are read as they are asked for. What stands behind the part of the stream that somebody looks at can be
anything. -/

namespace BlockScript.Yaml

namespace Scanner

/-! ## The kinds of tokens -/

/-- A key has to stand on one line with its colon, and not too far in front of it. -/
def isNear (s : Scanner) (k : KeyMark) : Bool :=
  s.cursor.line ≤ k.mark.line && s.cursor.mark.index ≤ k.mark.index + 1024

def value (s : Scanner) : Option Scanner := do
  let k := s.key
  let idle := { s with key := { k with possible := false } }
  if k.possible && s.isNear k then
    let s := (idle.settle k.number).insert k.number ⟨.key, k.mark.line⟩
    let s ← s.indent k.mark.column k.number k.mark.line .blockMappingStart
    some ((s.allowKey false).emitSymbol .value 1).skipLineComment
  else if k.possible && k.required then none
  else if !s.inFlow && !s.keyAllowed then none
  else
    let s ← idle.indentHere .blockMappingStart
    some ((s.allowKey !s.inFlow).emitSymbol .value 1).skipLineComment

def explicitKey (s : Scanner) : Option Scanner :=
  if !s.inFlow && !s.keyAllowed then none
  else do
    let s ← s.indentHere .blockMappingStart
    let s ← s.dropKey
    some ((s.allowKey !s.inFlow).emitSymbol .key 1).skipLineComment

def blockEntry (s : Scanner) : Option Scanner :=
  if !s.inFlow && !s.keyAllowed then none
  else do
    let s ← s.indentHere .blockSequenceStart
    let s ← s.dropKey
    some ((s.allowKey true).emitSymbol .blockEntry 1)

def flowStart (s : Scanner) (kind : TokenKind) : Option Scanner := do
  let s ← s.saveKey
  if maxDepth ≤ s.outerKeys.length then none
  else
    let s := { s with outerKeys := s.key :: s.outerKeys, key := ⟨false, false, s.nextNumber, s.cursor.mark⟩ }
    some ((s.allowKey true).emitSymbol kind 1).skipLineComment

def flowEnd (s : Scanner) (kind : TokenKind) : Option Scanner := do
  let s ← s.dropKey
  let s := match s.outerKeys with
    | key :: outer => { s.settle s.key.number with key, outerKeys := outer }
    | [] => s
  some ((s.allowKey false).emitSymbol kind 1).skipLineComment

def flowEntry (s : Scanner) : Option Scanner := do
  let s ← s.dropKey
  some ((s.allowKey true).emitSymbol .flowEntry 1).skipLineComment

def anchorOrReference (s : Scanner) (kind : List Char → TokenKind) : Option Scanner := do
  let s ← s.saveKey
  let name := (s.cursor.rest.drop 1).takeWhile isNameChar
  let after := s.cursor.skip (1 + name.length)
  let ends := after.blankAt 0 || after.peek?.any fun c => c ∈ "?:,]\x7d%@`".toList
  if name.isEmpty || !ends then none
  else some (((s.allowKey false).emit (kind name)).moveTo after).skipLineComment

def tag (s : Scanner) : Option Scanner := do
  let s ← s.saveKey
  let (tag, after) ← writtenTag? s.cursor
  some (((s.allowKey false).emit (.tag tag)).moveTo after).skipLineComment

def directive (s : Scanner) : Option Scanner := do
  let s ← (s.unindent fun _ => false).dropKey
  let (directive, after) ← directive? s.cursor
  some (((s.allowKey false).emit (.directive directive)).moveTo after)

def documentMark (s : Scanner) (kind : TokenKind) : Option Scanner := do
  let s ← (s.unindent fun _ => false).dropKey
  some ((s.allowKey false).emitSymbol kind 3)

def streamEnd (s : Scanner) : Option Scanner := do
  let s := if s.column = 0 then s else s.moveTo s.cursor.endLine
  let s ← (s.unindent fun _ => false).dropKey
  some ((s.allowKey false).emit .streamEnd)

def ofText (s : Scanner) (text : List Char) (style : Style) (after : Cursor) : Scanner :=
  (s.emit (.scalar text style)).moveTo after

def blockScalar (s : Scanner) (literal : Bool) : Option Scanner := do
  let s ← s.dropKey
  let (text, after) ← block s.bound literal s.indents.head? s.cursor
  some ((s.allowKey true).ofText text .block after)

def quotedScalar (s : Scanner) (double : Bool) : Option Scanner := do
  let s ← s.saveKey
  let (text, after) ← quoted s.bound double s.cursor
  some ((s.allowKey false).ofText text .quoted after).skipLineComment

/-- A key may follow a plain scalar only on a later line. -/
def plainScalar (s : Scanner) : Option Scanner := do
  let s ← s.saveKey
  let (text, crossed, after) ← plain s.bound s.inFlow ((s.indents.head?.map (· + 1)).getD 0) s.cursor
  let s := (s.allowKey crossed).ofText text .plain after
  if crossed then s.pass (if s.inFlow then 4 else 1) else do some (← s.pass 2).skipLineComment

def indicators : List Char := "-?:,[]\x7b\x7d#&*!|>'\"%@`".toList

def startsPlain (s : Scanner) (c : Char) : Bool :=
  !(isBlank c || isBreak c || c ∈ indicators) ||
    (c = '-' && !(s.cursor.rest.drop 1).head?.any isBlank) ||
    (!s.inFlow && (c = '?' || c = ':') && !s.cursor.blankAt 1)

def token (s : Scanner) : Option Scanner :=
  match s.cursor.peek? with
  | none => s.streamEnd
  | some c =>
    let blankNext := s.cursor.blankAt 1
    if s.column = 0 && c = '%' then s.directive
    else if s.cursor.atDocumentMark "---" then s.documentMark .documentStart
    else if s.cursor.atDocumentMark "..." then s.documentMark .documentEnd
    else if c = '[' then s.flowStart .flowSequenceStart
    else if c = '{' then s.flowStart .flowMappingStart
    else if c = ']' then s.flowEnd .flowSequenceEnd
    else if c = '}' then s.flowEnd .flowMappingEnd
    else if c = ',' then s.flowEntry
    else if c = '-' && blankNext then s.blockEntry
    else if c = '?' && (s.inFlow || blankNext) then s.explicitKey
    else if c = ':' && (s.inFlow || blankNext) then s.value
    else if c = '*' then s.anchorOrReference .reference
    else if c = '&' then s.anchorOrReference .anchor
    else if c = '!' then s.tag
    else if c = '|' && !s.inFlow then s.blockScalar true
    else if c = '>' && !s.inFlow then s.blockScalar false
    else if c = '\'' then s.quotedScalar false
    else if c = '"' then s.quotedScalar true
    else if s.startsPlain c then s.plainScalar
    else none

def next (s : Scanner) : Option Scanner := do
  let s ← skipGap s.bound s
  let s ← (s.unindent fun n => n ≤ s.column).demand 4
  let s ← s.token
  s.pass 1

/-! ## Taking tokens -/

/-- Whether the first token of the queue may still turn out to be a key; none if it has to be one and cannot. -/
def isPending (s : Scanner) : Option Bool :=
  match s.pending.find? fun k => k.number = s.taken with
  | none => some false
  | some k => if s.isNear k then some true else if k.required then none else some false

/-- Reads until the first token of the queue can be taken: two tokens stand behind it, and it will not be a key. -/
def fill : (bound : Nat) → Scanner → Option Scanner
  | 0, _ => none
  | bound + 1, s => do
    let waits ← if (s.queue.drop 2).isEmpty then pure true else s.isPending
    if waits then fill bound (← s.next) else some s

def peek (s : Scanner) : Option (Token × Scanner) := do
  let s ← fill s.bound s
  let token ← s.queue.head?
  some (token, s)

def take (s : Scanner) : Scanner := { s.settle s.taken with queue := s.queue.drop 1, taken := s.taken + 1 }

end Scanner

end BlockScript.Yaml
