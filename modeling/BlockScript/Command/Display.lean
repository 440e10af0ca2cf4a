import BlockScript.Value
import BlockScript.Text.Quoted

/-! # What the user sees -/

namespace BlockScript.Display

inductive Color where
  | red
  | green
  | blue
  | cyan
  deriving DecidableEq, Repr

def Color.code : Color → Bytes
  | .red => ascii "31"
  | .green => ascii "32"
  | .blue => ascii "34"
  | .cyan => ascii "36"

def paint (colored : Bool) (color : Color) (text : Bytes) : Bytes :=
  if colored then ascii "\x1b[" ++ color.code ++ ascii "m" ++ text ++ ascii "\x1b[0m" else text

def value (colored : Bool) : Value → Bytes
  | .string text => paint colored .green (ascii "\"" ++ text ++ ascii "\"")
  | v => paint colored .blue v.text

def error (colored : Bool) (message : Bytes) : Bytes := paint colored .red message

def padded (width : Nat) (text : Bytes) : Bytes :=
  text ++ List.replicate (width - (Utf8.glyphs text).length) ' '.toUInt8

def token (colored : Bool) (t : Token) : Bytes :=
  padded 8 t.position.text ++ ascii " " ++ paint colored .cyan (padded 16 t.kind.name) ++ ascii " " ++
    Quoted.text t.lexeme

end BlockScript.Display
