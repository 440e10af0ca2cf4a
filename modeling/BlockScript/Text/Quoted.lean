import BlockScript.Text.Utf8
import BlockScript.Text.Printable

/-! # Quoted text

Messages and log lines show a text between quotes, with the quote, the backslash and everything that cannot be printed
written as an escape. -/

namespace BlockScript.Quoted

def hex : (width : Nat) → Nat → Bytes
  | 0, _ => []
  | width + 1, n => hex width (n / 16) ++ [(ascii "0123456789abcdef").getD (n % 16) 0]

def escapeLetter? (c : Char) : Option UInt8 :=
  match c.toNat with
  | 0x07 => some 'a'.toUInt8
  | 0x08 => some 'b'.toUInt8
  | 0x09 => some 't'.toUInt8
  | 0x0A => some 'n'.toUInt8
  | 0x0B => some 'v'.toUInt8
  | 0x0C => some 'f'.toUInt8
  | 0x0D => some 'r'.toUInt8
  | _ => none

def escape (quote c : Char) : Bytes :=
  if c = quote || c = '\\' then '\\'.toUInt8 :: Utf8.encode c
  else if Printable.isPrintable c then Utf8.encode c
  else match escapeLetter? c with
    | some letter => ['\\'.toUInt8, letter]
    | none =>
      if c.toNat < 0x80 then ascii "\\x" ++ hex 2 c.toNat
      else if c.toNat < 0x10000 then ascii "\\u" ++ hex 4 c.toNat
      else ascii "\\U" ++ hex 8 c.toNat

/-- A text between double quotes; a byte that belongs to no character is written in hexadecimal. -/
def text (source : Bytes) : Bytes :=
  let body := (Utf8.glyphs source).flatMap fun g =>
    if g.isBroken then ascii "\\x" ++ g.bytes.flatMap (fun b => hex 2 b.toNat) else escape '"' g.char
  ascii "\"" ++ body ++ ascii "\""

def char (c : Char) : Bytes := ascii "'" ++ escape '\'' c ++ ascii "'"

end BlockScript.Quoted
