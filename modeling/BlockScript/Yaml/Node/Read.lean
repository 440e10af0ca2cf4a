import BlockScript.Yaml.Node
import BlockScript.Yaml.Token.Scan

/-! # Reading documents

The tokens of a stream are put together to the tree of its first document. -/

namespace BlockScript.Yaml

structure Reading where
  scanner : Scanner
  handles : List (Bytes × Bytes)
  /-- The anchors so far, the latest first, each with the number of its node. -/
  anchors : List (Bytes × Nat)
  anchored : List (Nat × Node)

abbrev Reader := StateT Reading Option

namespace Reader

def token : Reader Token := do
  let r ← get
  let (token, scanner) ← r.scanner.peek
  set { r with scanner }
  return token

def peek : Reader TokenKind := return (← token).kind

def line : Reader Nat := return (← token).line

def skip : Reader Unit := modify fun r => { r with scanner := r.scanner.take }

def accept (kind : TokenKind) : Reader Bool := do
  if (← peek) = kind then
    skip
    return true
  else return false

/-! ## Properties -/

structure Properties where
  anchor : Option Bytes
  tag : Option WrittenTag

def properties : (bound : Nat) → Properties → Reader Properties
  | 0, p => return p
  | bound + 1, p => do
    match ← peek with
    | .anchor name =>
      if p.anchor.isSome then return p
      else
        skip
        properties bound ⟨some (bytesOf name), p.tag⟩
    | .tag tag =>
      if p.tag.isSome then return p
      else
        skip
        properties bound ⟨p.anchor, some tag⟩
    | _ => return p

def tagOf? (p : Properties) : Reader (Option Tag) := do
  match p.tag with
  | none => return none
  | some ⟨handle, suffix⟩ =>
    let text ← if handle.isEmpty then pure suffix
      else match (← get).handles.lookup handle with
        | some expansion => pure (expansion ++ suffix)
        | none => failure
    return if text = ascii "!" then none else some (.ofText text)

/-- Reads a node and gives it the anchor in front of it, which may already be used inside the node. -/
def anchored (p : Properties) (node : Reader Node) : Reader Node := do
  match p.anchor with
  | none => node
  | some name =>
    let number := (← get).anchors.length
    modify fun r => { r with anchors := (name, number) :: r.anchors }
    let node ← node
    modify fun r => { r with anchored := (number, node) :: r.anchored }
    return node

/-! ## Nodes -/

def utf8 (text : List Char) : Bytes := text.flatMap Utf8.encode

def ofScalar (tag? : Option Tag) (text : List Char) (style : Style) (line : Nat) : Node :=
  let text := utf8 text
  let own : Tag := if style ≠ .plain then .str else if text = ascii "<<" then .merge else tagOf text
  .scalar text (tag?.getD own) line

def empty (tag? : Option Tag) (line : Nat) : Node := ofScalar tag? [] .plain line

def orEmpty (followers : List TokenKind) (line : Nat) (node : Reader Node) : Reader Node := do
  if (← peek) ∈ followers then return empty none line else node

def blockItems (node : Reader Node) (indented : Bool) : (bound : Nat) → Reader (List Node)
  | 0 => failure
  | bound + 1 => do
    let start ← line
    if ← accept .blockEntry then
      let followers : List TokenKind :=
        if indented then [.blockEntry, .blockEnd] else [.blockEntry, .key, .value, .blockEnd]
      let item ← orEmpty followers start node
      return item :: (← blockItems node indented bound)
    else if !indented then return []
    else if ← accept .blockEnd then return []
    else failure

def entryValue (followers : List TokenKind) (node : Reader Node) : Reader Node := do
  let start ← line
  if ← accept .value then orEmpty followers start node else return empty none start

def blockEntries (node : Reader Node) : (bound : Nat) → Reader (List (Node × Node))
  | 0 => failure
  | bound + 1 => do
    let start ← line
    if ← accept .blockEnd then return []
    else if !(← accept .key) then failure
    else
      let followers : List TokenKind := [.key, .value, .blockEnd]
      let key ← orEmpty followers start node
      let value ← entryValue followers node
      return (key, value) :: (← blockEntries node bound)

/-- A key and its value inside a flow sequence. The token behind a missing key belongs to it. -/
def flowPair (node : Reader Node) : Reader Node := do
  let start ← line
  skip
  let behind ← token
  let key ← if behind.kind ∈ ([.value, .flowEntry, .flowSequenceEnd] : List TokenKind) then do
      skip
      pure (empty none behind.line)
    else node
  let value ← entryValue [.flowEntry, .flowSequenceEnd] node
  return .mapping [(key, value)] .map start

def flowItems (node : Reader Node) : (bound : Nat) → (first : Bool) → Reader (List Node)
  | 0, _ => failure
  | bound + 1, first => do
    if ← accept .flowSequenceEnd then return []
    else
      if !first then
        if !(← accept .flowEntry) then failure
      if ← accept .flowSequenceEnd then return []
      else
        let item ← if (← peek) = .key then flowPair node else node
        return item :: (← flowItems node bound false)

def flowEntries (node : Reader Node) : (bound : Nat) → (first : Bool) → Reader (List (Node × Node))
  | 0, _ => failure
  | bound + 1, first => do
    if ← accept .flowMappingEnd then return []
    else
      if !first then
        if !(← accept .flowEntry) then failure
      if ← accept .flowMappingEnd then return []
      else if ← accept .key then
        let key ← orEmpty [.value, .flowEntry, .flowMappingEnd] (← line) node
        let value ← entryValue [.flowEntry, .flowMappingEnd] node
        return (key, value) :: (← flowEntries node bound false)
      else
        let key ← node
        return (key, empty none (← line)) :: (← flowEntries node bound false)

/-- Reads a node. Block collections are allowed only outside flow collections, and a block sequence without an
indentation of its own only as a part of a block mapping. -/
def node : (bound : Nat) → (inBlock inMapping : Bool) → Reader Node
  | 0, _, _ => failure
  | bound + 1, inBlock, inMapping => do
    let start ← line
    match ← peek with
    | .reference name =>
      skip
      match (← get).anchors.lookup (bytesOf name) with
      | some target => return .reference (bytesOf name) target start
      | none => failure
    | _ =>
      let p ← properties 2 ⟨none, none⟩
      let tag? ← tagOf? p
      let block := node bound true false
      let flow := node bound false false
      match ← peek with
      | .scalar text style =>
        skip
        anchored p (pure (ofScalar tag? text style start))
      | .flowSequenceStart =>
        skip
        anchored p (return .sequence (← flowItems flow bound true) (tag?.getD .seq) start)
      | .flowMappingStart =>
        skip
        anchored p (return .mapping (← flowEntries flow bound true) (tag?.getD .map) start)
      | .blockEntry =>
        if inMapping then anchored p (return .sequence (← blockItems block false bound) (tag?.getD .seq) start)
        else bare p tag? start
      | .blockSequenceStart =>
        if inBlock then
          skip
          anchored p (return .sequence (← blockItems block true bound) (tag?.getD .seq) start)
        else bare p tag? start
      | .blockMappingStart =>
        if inBlock then
          skip
          anchored p (return .mapping (← blockEntries (node bound true true) bound) (tag?.getD .map) start)
        else bare p tag? start
      | _ => bare p tag? start
where
  bare (p : Properties) (tag? : Option Tag) (start : Nat) : Reader Node :=
    if p.anchor.isSome || p.tag.isSome then anchored p (pure (empty tag? start)) else failure

/-! ## Documents -/

def commonHandles : List (Bytes × Bytes) := [(ascii "!", ascii "!"), (ascii "!!", Tag.longForm)]

/-- Reads the directives in front of a document. The version may be given once and has to be 1.1, and a handle must not
get two meanings. -/
def directives : (bound : Nat) → (versioned : Bool) → (handles : List (Bytes × Bytes)) → Reader Unit
  | 0, _, _ => failure
  | bound + 1, versioned, handles => do
    match ← peek with
    | .directive (.version major minor) =>
      if versioned || major ≠ 1 || minor ≠ 1 then failure
      else
        skip
        directives bound true handles
    | .directive (.handle handle expansion) =>
      if (handles.lookup handle).isSome then failure
      else
        skip
        directives bound versioned ((handle, expansion) :: handles)
    | _ => modify fun r => { r with handles := handles ++ commonHandles }

def isDirective : TokenKind → Bool
  | .directive _ => true
  | _ => false

def root (bound : Nat) : Reader (Option Node) := do
  let first ← peek
  if first = .streamEnd then return none
  else if first = .documentStart || isDirective first then
    directives bound false []
    let start ← line
    if !(← accept .documentStart) then failure
    else
      let behind ← peek
      if isDirective behind || behind ∈ ([.documentStart, .documentEnd, .streamEnd] : List TokenKind) then
        return some (empty none start)
      else return some (← node bound true false)
  else
    directives bound false []
    return some (← node bound true false)

end Reader

/-- The first document of a stream, if the stream is YAML; an empty stream has none. What follows the first document is
only looked at as far as the next token. -/
def document? (stream : Bytes) : Option (Option Document) := do
  let scanner := Scanner.start (.ofBytes stream)
  let (root, r) ← (Reader.root scanner.bound).run ⟨scanner, [], [], []⟩
  let _ ← r.scanner.peek
  some (root.map fun root => ⟨root, r.anchored, scanner.bound⟩)

end BlockScript.Yaml
