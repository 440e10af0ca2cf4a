import BlockScript.Text.Bytes

/-! # File paths -/

namespace BlockScript.Path

def slash : UInt8 := '/'.toUInt8

def components (path : Bytes) : List Bytes := path.splitOn slash

def step (path : List Bytes) (component : Bytes) : List Bytes :=
  if component.isEmpty || component = ascii "." then path
  else if component = ascii ".." then path.drop 1
  else component :: path

def clean (path : Bytes) : Bytes :=
  let kept := ((components path).foldl step []).reverse
  slash :: Bytes.join [slash] kept

def absolute (directory path : Bytes) : Bytes :=
  if path.head? = some slash then clean path else clean (directory ++ slash :: path)

end BlockScript.Path
