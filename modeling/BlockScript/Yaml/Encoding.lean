import BlockScript.Text.Utf8

/-! # Encodings of a YAML stream

A stream is UTF-8, or UTF-16 if a byte order mark at its beginning says so. It is read a block at a time: a block with a
fault in it gives none of its characters, but what the blocks before it hold can still be read. -/

namespace BlockScript.Yaml

inductive Encoding where
  | utf8
  | utf16 (bigEndian : Bool)
  deriving DecidableEq, Repr

inductive Front where
  | char (c : Char) (width : Nat)
  | cut
  | fault

def isAllowed (c : Char) : Bool :=
  let n := c.toNat
  n ∈ [0x09, 0x0A, 0x0D, 0x85] || (0x20 ≤ n && n ≤ 0x7E) || (0xA0 ≤ n && n ≤ 0xFFFD) || 0x10000 ≤ n

namespace Encoding

def announced (b : UInt8) : Nat :=
  if b < 0x80 then 1
  else if b < 0xC0 then 0
  else if b < 0xE0 then 2
  else if b < 0xF0 then 3
  else if b < 0xF8 then 4
  else 0

def utf8Front : Bytes → Front
  | [] => .cut
  | first :: rest =>
    let width := announced first
    if width = 0 then .fault
    else if rest.length + 1 < width then .cut
    else
      let g := Utf8.glyph first rest
      if g.isBroken then .fault else .char g.char width

def unit (bigEndian : Bool) (a b : UInt8) : Nat :=
  if bigEndian then a.toNat * 256 + b.toNat else b.toNat * 256 + a.toNat

def isHighSurrogate (n : Nat) : Bool := 0xD800 ≤ n && n < 0xDC00

def isLowSurrogate (n : Nat) : Bool := 0xDC00 ≤ n && n < 0xE000

def utf16Front (bigEndian : Bool) : Bytes → Front
  | a :: b :: rest =>
    let n := unit bigEndian a b
    if isLowSurrogate n then .fault
    else if isHighSurrogate n then
      match rest with
      | c :: d :: _ =>
        let m := unit bigEndian c d
        if isLowSurrogate m then .char (Char.ofNat (0x10000 + (n - 0xD800) * 1024 + (m - 0xDC00))) 4 else .fault
      | _ => .cut
    else .char (Char.ofNat n) 2
  | _ => .cut

def front (e : Encoding) (bytes : Bytes) : Front :=
  match e with
  | .utf8 => utf8Front bytes
  | .utf16 bigEndian => utf16Front bigEndian bytes

/-- The characters of a block, and the bytes at its end that are not a whole character; none if there is a fault. -/
def block (e : Encoding) : (bound : Nat) → Bytes → Option (List Char × Bytes)
  | 0, bytes => some ([], bytes)
  | bound + 1, bytes =>
    match e.front bytes with
    | .cut => some ([], bytes)
    | .fault => none
    | .char c width =>
      if !isAllowed c then none
      else do
        let (more, left) ← block e bound (bytes.drop width)
        some (c :: more, left)

end Encoding

structure Stream where
  chars : List Char
  ends : List Nat
  broken : Bool

namespace Stream

def blockSize : Nat := 512

def cons (block : List Char) (s : Stream) : Stream :=
  ⟨block ++ s.chars, block.length :: s.ends.map (· + block.length), s.broken⟩

def read (e : Encoding) : (bound : Nat) → (buffer others : Bytes) → Stream
  | 0, _, _ => ⟨[], [], true⟩
  | bound + 1, buffer, others =>
    match e.block buffer.length buffer with
    | none => ⟨[], [], true⟩
    | some (chars, left) =>
      if others.isEmpty then cons chars ⟨[], [], !left.isEmpty⟩
      else
        let size := blockSize - left.length
        cons chars (read e bound (left ++ others.take size) (others.drop size))

def encodingOf (bytes : Bytes) : Encoding × Nat :=
  if [0xFF, 0xFE].isPrefixOf bytes then (.utf16 false, 2)
  else if [0xFE, 0xFF].isPrefixOf bytes then (.utf16 true, 2)
  else if [0xEF, 0xBB, 0xBF].isPrefixOf bytes then (.utf8, 3)
  else (.utf8, 0)

def ofBytes (bytes : Bytes) : Stream :=
  let (e, mark) := encodingOf bytes
  read e (bytes.length + 1) ((bytes.take blockSize).drop mark) (bytes.drop blockSize)

end Stream

end BlockScript.Yaml
