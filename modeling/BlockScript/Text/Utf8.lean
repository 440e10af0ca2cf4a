import BlockScript.Text.Bytes

/-! # UTF-8

A byte text is read as a sequence of glyphs: a glyph is a character together with the bytes that stand for it. A byte
that begins no well-formed sequence is a glyph of its own, the replacement character, so every text has exactly one
reading and the bytes of its glyphs put together are the text again. -/

namespace BlockScript

structure Glyph where
  char : Char
  bytes : Bytes
  deriving DecidableEq, Repr

namespace Glyph

def replacement : Char := Char.ofNat 0xFFFD

def broken (byte : UInt8) : Glyph := ⟨replacement, [byte]⟩

/-- Tells an ill-formed byte from a written replacement character, which takes three bytes. -/
def isBroken (g : Glyph) : Bool := g.char = replacement && g.bytes.length = 1

end Glyph

namespace Utf8

def isTail (b : UInt8) : Bool := 0x80 ≤ b && b ≤ 0xBF

structure Lead where
  tails : Nat
  bits : Nat
  /-- Bounds of the second byte; they exclude overlong forms, surrogates and code points that are too large. -/
  low : UInt8
  high : UInt8

def lead? (b : UInt8) : Option Lead :=
  let n := b.toNat
  if b < 0xC2 then none
  else if b ≤ 0xDF then some ⟨1, n - 0xC0, 0x80, 0xBF⟩
  else if b = 0xE0 then some ⟨2, n - 0xE0, 0xA0, 0xBF⟩
  else if b = 0xED then some ⟨2, n - 0xE0, 0x80, 0x9F⟩
  else if b ≤ 0xEF then some ⟨2, n - 0xE0, 0x80, 0xBF⟩
  else if b = 0xF0 then some ⟨3, n - 0xF0, 0x90, 0xBF⟩
  else if b ≤ 0xF3 then some ⟨3, n - 0xF0, 0x80, 0xBF⟩
  else if b = 0xF4 then some ⟨3, n - 0xF0, 0x80, 0x8F⟩
  else none

def tails? (lead : Lead) (rest : Bytes) : Option Bytes :=
  let tails := rest.take lead.tails
  if tails.length = lead.tails && tails.all isTail && tails.head?.all (fun b => lead.low ≤ b && b ≤ lead.high) then
    some tails
  else
    none

def codePoint (lead : Lead) (tails : Bytes) : Nat :=
  tails.foldl (fun n b => n * 64 + (b.toNat - 0x80)) lead.bits

def glyph (first : UInt8) (rest : Bytes) : Glyph :=
  if first < 0x80 then ⟨Char.ofNat first.toNat, [first]⟩
  else match lead? first with
    | none => .broken first
    | some lead => match tails? lead rest with
      | none => .broken first
      | some tails => ⟨Char.ofNat (codePoint lead tails), first :: tails⟩

def glyphs : Bytes → List Glyph
  | [] => []
  | first :: rest =>
    let g := glyph first rest
    g :: glyphs (rest.drop (g.bytes.length - 1))
termination_by text => text.length
decreasing_by simp only [List.length_drop, List.length_cons]; omega

def text (gs : List Glyph) : Bytes := gs.flatMap Glyph.bytes

def isValid (text : Bytes) : Bool := (glyphs text).all fun g => !g.isBroken

def encode (c : Char) : Bytes :=
  let n := c.toNat
  let byte (k : Nat) : UInt8 := UInt8.ofNat k
  let tail (shift : Nat) : UInt8 := byte (0x80 + n / shift % 64)
  if n < 0x80 then [byte n]
  else if n < 0x800 then [byte (0xC0 + n / 64), tail 1]
  else if n < 0x10000 then [byte (0xE0 + n / 4096), tail 64, tail 1]
  else [byte (0xF0 + n / 262144), tail 4096, tail 64, tail 1]

end Utf8

end BlockScript
