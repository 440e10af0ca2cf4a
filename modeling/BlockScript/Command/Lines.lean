import BlockScript.Text.Utf8

/-! # Lines of input

Input is read a line at a time through a buffer of fixed size; a line that does not fit is taken in pieces. The lines
entered before are kept as a history of limited length. -/

namespace BlockScript.Lines

def newline : UInt8 := '\n'.toUInt8

def carriageReturn : UInt8 := '\r'.toUInt8

def bufferSize : Nat := 4096

structure Line where
  text : Bytes
  isPiece : Bool
  rest : Bytes

def dropReturn (text : Bytes) : Bytes :=
  if text.getLast? = some carriageReturn then text.dropLast else text

/-- The first line of a nonempty input. A piece leaves a carriage return at its end to the next line. -/
def next (input : Bytes) : Line :=
  match Bytes.cut? newline (input.take bufferSize) with
  | some (text, _) => ⟨dropReturn text, false, input.drop (text.length + 1)⟩
  | none =>
    let text := input.take bufferSize
    if text.length < bufferSize then ⟨text, false, []⟩
    else
      let kept := dropReturn text
      ⟨kept, true, input.drop kept.length⟩

def splitFrom : (bound : Nat) → Bytes → List Line
  | 0, _ => []
  | _ + 1, [] => []
  | bound + 1, input =>
    let line := next input
    line :: splitFrom bound line.rest

def split (input : Bytes) : List Line := splitFrom input.length input

/-! ## History -/

def historyLimit : Nat := 1000

def limited (history : List Bytes) : List Bytes := history.drop (history.length - historyLimit)

def remember (history : List Bytes) (line : Bytes) : List Bytes :=
  if history.getLast? = some line then history else limited (history ++ [line])

/-- The lines of a history file up to the first that is too long or not well-formed. -/
def readHistory (file : Bytes) : List Bytes :=
  limited (((split file).takeWhile fun line => !line.isPiece && Utf8.isValid line.text).map Line.text)

def writeHistory (history : List Bytes) : Bytes := history.flatMap fun line => line ++ [newline]

end BlockScript.Lines
