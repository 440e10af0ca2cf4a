import BlockScript.Text.Utf8

/-! # Blank text

The characters that Unicode counts as white space, and the texts made of nothing else. -/

namespace BlockScript.Blank

/-- The white space code points beyond ASCII, as ranges with both ends included. -/
def ranges : List (Nat × Nat) :=
  [(0x85, 0x85), (0xA0, 0xA0), (0x1680, 0x1680), (0x2000, 0x200A), (0x2028, 0x2029), (0x202F, 0x202F),
   (0x205F, 0x205F), (0x3000, 0x3000)]

def isBlank (c : Char) : Bool :=
  if c.toNat < 0x80 then c = ' ' || (0x09 ≤ c.toNat && c.toNat ≤ 0x0D)
  else ranges.any fun (low, high) => low ≤ c.toNat && c.toNat ≤ high

def isBlankText (text : Bytes) : Bool := (Utf8.glyphs text).all fun g => isBlank g.char

end BlockScript.Blank
