import BlockScript.Yaml.Cursor

/-! # Scalars of a YAML stream

A scalar is a text that may run over several lines. Lines are folded: one line break between two words counts as a
blank, and each further one as itself. The functions here read one scalar and give its text with the cursor behind
it. -/

namespace BlockScript.Yaml

/-- Blanks and line breaks between two words, before it is known whether a word follows. -/
structure Gap where
  blanks : List Char
  crossed : Bool
  first : Option Char
  more : List Char

namespace Gap

def empty : Gap := ⟨[], false, none, []⟩

def afterEscapedBreak : Gap := ⟨[], true, none, []⟩

def addBlank (g : Gap) (c : Char) : Gap := if g.crossed then g else ⟨g.blanks ++ [c], false, none, []⟩

def addBreak (g : Gap) (c : Char) : Gap :=
  if g.crossed then ⟨[], true, g.first, g.more ++ [c]⟩ else ⟨[], true, some c, []⟩

def fold (g : Gap) : List Char :=
  if !g.crossed then g.blanks
  else match g.first with
    | some '\n' => if g.more.isEmpty then [' '] else g.more
    | some c => c :: g.more
    | none => g.more

end Gap

/-- Reads a gap. A tab inside the indentation of a later line breaks the rules when `indent` is given. -/
def readGap (indent : Option Nat) : (bound : Nat) → Cursor → Gap → Option (Gap × Cursor)
  | 0, c, g => some (g, c)
  | bound + 1, c, g =>
    match c.peek? with
    | none => some (g, c)
    | some ch =>
      if isBlank ch then
        if g.crossed && ch = '\t' && indent.any (fun n => c.column < n) then none
        else readGap indent bound (c.skip 1) (g.addBlank ch)
      else if isBreak ch then readGap indent bound c.skipBreak (g.addBreak (Cursor.breakText ch))
      else some (g, c)

/-! ## Plain scalars -/

def endsPlain (inFlow : Bool) (c : Cursor) : Bool :=
  match c.peek? with
  | some ':' => c.blankAt 1
  | some ch => inFlow && ch ∈ [',', '?', '[', ']', '{', '}']
  | none => true

def plainWord (inFlow : Bool) : (bound : Nat) → Cursor → List Char × Cursor
  | 0, c => ([], c)
  | bound + 1, c =>
    match c.peek? with
    | none => ([], c)
    | some ch =>
      if isBlank ch || isBreak ch || endsPlain inFlow c then ([], c)
      else
        let (more, after) := plainWord inFlow bound (c.skip 1)
        (ch :: more, after)

/-- The words of a plain scalar from the cursor on; `gap` stands in front of the next word. The result tells whether the
cursor has crossed a line since the last word. -/
def plainFrom (inFlow : Bool) (indent : Nat) : (bound : Nat) → Cursor → Gap → Option (List Char × Bool × Cursor)
  | 0, c, gap => some ([], gap.crossed, c)
  | bound + 1, c, gap =>
    if c.atAnyDocumentMark || c.peek? = some '#' then some ([], gap.crossed, c)
    else
      let (word, c) := plainWord inFlow (bound + 1) c
      let (text, gap) := if word.isEmpty then ([], gap) else (gap.fold ++ word, Gap.empty)
      if !(c.atBlank || c.atBreak) then some (text, gap.crossed, c)
      else do
        let (gap, c) ← readGap (some indent) (bound + 1) c gap
        if !inFlow && c.column < indent then some (text, gap.crossed, c)
        else
          let (more, crossed, c) ← plainFrom inFlow indent bound c gap
          some (text ++ more, crossed, c)

def plain (bound : Nat) (inFlow : Bool) (indent : Nat) (c : Cursor) : Option (List Char × Bool × Cursor) :=
  plainFrom inFlow indent bound c .empty

/-! ## Quoted scalars -/

def hexValue? (c : Char) : Option Nat :=
  if '0' ≤ c && c ≤ '9' then some (c.toNat - 48)
  else if 'a' ≤ c && c ≤ 'f' then some (c.toNat - 87)
  else if 'A' ≤ c && c ≤ 'F' then some (c.toNat - 55)
  else none

def escaped? (c : Char) : Option Char :=
  match c with
  | '0' => some (Char.ofNat 0)
  | 'a' => some (Char.ofNat 0x07)
  | 'b' => some (Char.ofNat 0x08)
  | 't' | '\t' => some '\t'
  | 'n' => some '\n'
  | 'v' => some (Char.ofNat 0x0B)
  | 'f' => some (Char.ofNat 0x0C)
  | 'r' => some '\r'
  | 'e' => some (Char.ofNat 0x1B)
  | ' ' => some ' '
  | '"' => some '"'
  | '\'' => some '\''
  | '\\' => some '\\'
  | 'N' => some (Char.ofNat 0x85)
  | '_' => some (Char.ofNat 0xA0)
  | 'L' => some (Char.ofNat 0x2028)
  | 'P' => some (Char.ofNat 0x2029)
  | _ => none

def escapeWidth? (c : Char) : Option Nat :=
  match c with
  | 'x' => some 2
  | 'u' => some 4
  | 'U' => some 8
  | _ => none

def codeEscape? (digits : List Char) (width : Nat) : Option Char := do
  let values ← (digits.take width).mapM hexValue?
  let code := values.foldl (fun n d => n * 16 + d) 0
  let isScalar := code < 0xD800 || (0xDFFF < code && code ≤ 0x10FFFF)
  if values.length = width && isScalar then some (Char.ofNat code) else none

def escape? (rest : List Char) : Option (Char × Nat) :=
  match rest with
  | [] => none
  | letter :: digits =>
    match escaped? letter with
    | some c => some (c, 1)
    | none => do
      let width ← escapeWidth? letter
      let c ← codeEscape? digits width
      some (c, 1 + width)

/-- A word of a quoted scalar: its text, the gap that an escaped line break opens, and the cursor behind it. -/
def quotedWord (double : Bool) : (bound : Nat) → Cursor → Option (List Char × Gap × Cursor)
  | 0, c => some ([], .empty, c)
  | bound + 1, c =>
    match c.rest with
    | [] => some ([], .empty, c)
    | ch :: rest =>
      if isBlank ch || isBreak ch then some ([], .empty, c)
      else if !double && ch = '\'' then
        if rest.head? = some '\'' then do
          let (more, gap, c) ← quotedWord double bound (c.skip 2)
          some ('\'' :: more, gap, c)
        else some ([], .empty, c)
      else if double && ch = '"' then some ([], .empty, c)
      else if double && ch = '\\' then
        if rest.head?.any isBreak then some ([], .afterEscapedBreak, (c.skip 1).skipBreak)
        else do
          let (e, width) ← escape? rest
          let (more, gap, c) ← quotedWord double bound (c.skip (1 + width))
          some (e :: more, gap, c)
      else do
        let (more, gap, c) ← quotedWord double bound (c.skip 1)
        some (ch :: more, gap, c)

def quotedFrom (double : Bool) : (bound : Nat) → Cursor → Option (List Char × Cursor)
  | 0, _ => none
  | bound + 1, c =>
    if c.atAnyDocumentMark || c.atEnd then none
    else do
      let (word, gap, c) ← quotedWord double (bound + 1) c
      if !gap.crossed && c.peek? = some (if double then '"' else '\'') then some (word, c.skip 1)
      else
        let (gap, c) ← readGap none (bound + 1) c gap
        let (more, c) ← quotedFrom double bound c
        some (word ++ gap.fold ++ more, c)

def quoted (bound : Nat) (double : Bool) (c : Cursor) : Option (List Char × Cursor) :=
  quotedFrom double bound (c.skip 1)

/-! ## Block scalars -/

inductive Chomping where
  | clip
  | strip
  | keep
  deriving DecidableEq, Repr

def chomping? (c : Cursor) : Option Chomping :=
  match c.peek? with
  | some '+' => some .keep
  | some '-' => some .strip
  | _ => none

def increment? (c : Cursor) : Option (Option Nat × Cursor) :=
  match c.peek? with
  | some ch =>
    if ch = '0' then none
    else if '1' ≤ ch && ch ≤ '9' then some (some (ch.toNat - 48), c.skip 1)
    else some (none, c)
  | none => some (none, c)

def blockHeader? (c : Cursor) : Option (Chomping × Option Nat × Cursor) :=
  match chomping? c with
  | some chomping => do
    let (increment, c) ← increment? (c.skip 1)
    some (chomping, increment, c)
  | none => do
    let (increment, c) ← increment? c
    match increment, chomping? c with
    | some n, some chomping => some (chomping, some n, c.skip 1)
    | increment, _ => some (.clip, increment, c)

/-- Passes over indentation and empty lines. The result has the line breaks and the widest indentation found; `indent`
is zero while it is not known. -/
def blockGap (indent : Nat) : (bound : Nat) → Cursor → Option (List Char × Nat × Cursor)
  | 0, c => some ([], c.column, c)
  | bound + 1, c =>
    let spaces := (c.rest.takeWhile fun ch => ch = ' ').length
    let c := c.skip (if indent = 0 then spaces else min spaces (indent - c.column))
    if (indent = 0 || c.column < indent) && c.peek? = some '\t' then none
    else match c.peek? with
      | some ch =>
        if isBreak ch then do
          let (breaks, widest, after) ← blockGap indent bound c.skipBreak
          some (Cursor.breakText ch :: breaks, max c.column widest, after)
        else some ([], c.column, c)
      | none => some ([], c.column, c)

/-- The lines of a block scalar. `pending` is the break behind the line before, `gap` the empty lines behind it, and
`wasIndented` tells whether that line began with a blank. The result has the text, then the break and the empty lines
behind the last line. -/
def blockLines (literal : Bool) (indent : Nat) :
    (bound : Nat) → Cursor → (pending gap : List Char) → (wasIndented : Bool) →
      Option (List Char × List Char × List Char × Cursor)
  | 0, c, pending, gap, _ => some ([], pending, gap, c)
  | bound + 1, c, pending, gap, wasIndented =>
    if c.column ≠ indent || c.atEnd then some ([], pending, gap, c)
    else
      let indented := c.atBlank
      let folds := !literal && !wasIndented && !indented && pending = ['\n']
      let lead := if folds then (if gap.isEmpty then [' '] else gap) else pending ++ gap
      let line := c.rest.takeWhile fun ch => !isBreak ch
      let c := c.skip line.length
      let pending := (c.peek?.map Cursor.breakText).toList
      do
        let (gap, _, c) ← blockGap indent (bound + 1) c.skipBreak
        let (more, pending, gap, c) ← blockLines literal indent bound c pending gap indented
        some (lead ++ line ++ more, pending, gap, c)

/-- A block scalar from its indicator on. `parent` is the indentation of the collection it stands in, if any, and `bound`
exceeds the number of characters left. -/
def block (bound : Nat) (literal : Bool) (parent : Option Nat) (c : Cursor) : Option (List Char × Cursor) := do
  let (chomping, increment, c) ← blockHeader? (c.skip 1)
  let c := c.skipWhile isBlank
  let c := if c.peek? = some '#' then c.skipWhile fun ch => !isBreak ch else c
  if !(c.atBreak || c.atEnd) then none
  else
    let c := c.skipBreak
    let given := increment.map fun n => parent.getD 0 + n
    let (breaks, widest, c) ← blockGap (given.getD 0) bound c
    let least := max 1 ((parent.map (· + 1)).getD 0)
    let indent := given.getD (max widest least)
    let (text, pending, gap, c) ← blockLines literal indent bound c [] breaks false
    let ending := match chomping with
      | .strip => []
      | .clip => pending
      | .keep => pending ++ gap
    some (text ++ ending, c)

end BlockScript.Yaml
