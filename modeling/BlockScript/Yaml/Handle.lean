import BlockScript.Yaml.Scalar

/-! # Tags and directives as they are written

A tag is written out between angle brackets, or as a handle with a suffix behind it. What a handle stands for is said by
a directive in front of the document. The functions here read one tag or one directive from a cursor and give the cursor
behind it. -/

namespace BlockScript.Yaml

def isNameChar (c : Char) : Bool := c.isAlphanum || c = '_' || c = '-'

def isUriChar (c : Char) : Bool := isNameChar c || c ∈ ";/?:@&=+$,.!~*'()[]%".toList

def percentByte? : List Char → Option UInt8
  | '%' :: high :: low :: _ => do some (UInt8.ofNat ((← hexValue? high) * 16 + (← hexValue? low)))
  | _ => none

def percentBytes? (chars : List Char) : Option Bytes := do
  let first ← percentByte? chars
  let width := Encoding.announced first
  let others ← (List.range (width - 1)).mapM fun i => percentByte? (chars.drop (3 * (i + 1)))
  if width = 0 || !others.all Utf8.isTail then none else some (first :: others)

def uri? : (bound : Nat) → List Char → Option (Bytes × Nat)
  | bound + 1, c :: rest =>
    if c = '%' then do
      let bytes ← percentBytes? (c :: rest)
      let (more, width) ← uri? bound ((c :: rest).drop (3 * bytes.length))
      some (bytes ++ more, 3 * bytes.length + width)
    else if isUriChar c then do
      let (more, width) ← uri? bound rest
      some (c.toUInt8 :: more, width + 1)
    else some ([], 0)
  | _, _ => some ([], 0)

def Cursor.uri? (c : Cursor) : Option (Bytes × Cursor) := do
  let (text, width) ← Yaml.uri? c.rest.length c.rest
  some (text, c.skip width)

/-! ## Tags -/

def handleText (chars : List Char) : List Char :=
  let name := (chars.drop 1).takeWhile isNameChar
  '!' :: name ++ ((chars.drop (1 + name.length)).take 1).filter fun c => c = '!'

def isHandle (text : List Char) : Bool := 1 < text.length && text.getLast? = some '!'

structure WrittenTag where
  /-- Empty if the suffix is the whole tag. -/
  handle : Bytes
  suffix : Bytes
  deriving DecidableEq, Repr

def bytesOf (chars : List Char) : Bytes := chars.map Char.toUInt8

/-- A tag from its exclamation mark on. Without a handle of its own it has the handle `!`; the mark alone is a tag
too. -/
def writtenTag? (c : Cursor) : Option (WrittenTag × Cursor) := do
  let (tag, after) ←
    if (c.rest.drop 1).head? = some '<' then do
      let (text, after) ← (c.skip 2).uri?
      if text.isEmpty || after.peek? ≠ some '>' then none else some (⟨[], text⟩, after.skip 1)
    else
      let handle := handleText c.rest
      let behind := c.skip handle.length
      if isHandle handle then do
        let (text, after) ← behind.uri?
        if text.isEmpty then none else some (⟨bytesOf handle, text⟩, after)
      else do
        let (text, after) ← behind.uri?
        let suffix := bytesOf (handle.drop 1) ++ text
        let tag : WrittenTag := if suffix.isEmpty then ⟨[], ascii "!"⟩ else ⟨ascii "!", suffix⟩
        some (tag, after)
  if after.blankAt 0 then some (tag, after) else none

/-! ## Directives -/

inductive Directive where
  | version (major minor : Nat)
  | handle (handle expansion : Bytes)
  deriving DecidableEq, Repr

def versionNumber? (c : Cursor) : Option (Nat × Cursor) :=
  let digits := c.rest.takeWhile Char.isDigit
  if digits.isEmpty || 2 < digits.length then none
  else some (digits.foldl (fun n d => n * 10 + (d.toNat - 48)) 0, c.skip digits.length)

def directiveBody? (name : List Char) (c : Cursor) : Option (Directive × Cursor) :=
  let c := c.skipWhile isBlank
  if name = "YAML".toList then do
    let (major, c) ← versionNumber? c
    if c.peek? ≠ some '.' then none
    else
      let (minor, c) ← versionNumber? (c.skip 1)
      some (.version major minor, c)
  else if name = "TAG".toList then
    let handle := handleText c.rest
    let behind := c.skip handle.length
    if c.peek? ≠ some '!' || !(handle = ['!'] || isHandle handle) || !behind.atBlank then none
    else do
      let (text, after) ← (behind.skipWhile isBlank).uri?
      if text.isEmpty || !after.blankAt 0 then none else some (.handle (bytesOf handle) text, after)
  else none

def directive? (c : Cursor) : Option (Directive × Cursor) := do
  let name := (c.rest.drop 1).takeWhile isNameChar
  let behind := c.skip (1 + name.length)
  if name.isEmpty || !behind.blankAt 0 then none
  else
    let (directive, c) ← directiveBody? name behind
    let c := c.skipWhile isBlank
    let c := if c.peek? = some '#' then c.skipWhile fun ch => !isBreak ch else c
    if c.atEnd || c.atBreak then some (directive, c.skipBreak) else none

end BlockScript.Yaml
