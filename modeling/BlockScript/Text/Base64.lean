import BlockScript.Text.Bytes

/-! # Base 64

Four digits stand for three bytes. The last group may lack one or two of its bytes, and is then filled up with equals
signs. -/

namespace BlockScript.Base64

def digit? (b : UInt8) : Option Nat :=
  let n := b.toNat
  if 'A'.toNat ≤ n && n ≤ 'Z'.toNat then some (n - 'A'.toNat)
  else if 'a'.toNat ≤ n && n ≤ 'z'.toNat then some (n - 'a'.toNat + 26)
  else if '0'.toNat ≤ n && n ≤ '9'.toNat then some (n - '0'.toNat + 52)
  else if n = '+'.toNat then some 62
  else if n = '/'.toNat then some 63
  else none

def padding : UInt8 := '='.toUInt8

/-- The bytes of a group of up to four digits. Bits that do not fill a byte are dropped. -/
def group (digits : List Nat) : Bytes :=
  let bits := (digits ++ List.replicate (4 - digits.length) 0).foldl (fun n d => n * 64 + d) 0
  [UInt8.ofNat (bits / 65536), UInt8.ofNat (bits / 256), UInt8.ofNat bits].take (digits.length - 1)

def groups? : Bytes → Option Bytes
  | [] => some []
  | a :: b :: c :: d :: rest =>
    if d = padding then
      if !rest.isEmpty then none
      else (((if c = padding then [a, b] else [a, b, c]).mapM digit?).map group)
    else do
      let digits ← [a, b, c, d].mapM digit?
      let more ← groups? rest
      some (group digits ++ more)
  | _ => none

def decode? (text : Bytes) : Option Bytes := groups? (text.filter fun b => b ≠ '\n'.toUInt8 && b ≠ '\r'.toUInt8)

end BlockScript.Base64
