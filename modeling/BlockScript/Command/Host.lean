import BlockScript.Text.Bytes

/-! # The surroundings of a command

What a command finds around it: the working directory, the home directory, the standard input and the files, as they
were when it was started. -/

namespace BlockScript

inductive FileError where
  | missing
  | notADirectory
  | isDirectory
  | nameTooLong
  | invalidPath
  deriving DecidableEq, Repr

namespace FileError

def isOpenable : FileError → Bool
  | .isDirectory => true
  | .missing | .notADirectory | .nameTooLong | .invalidPath => false

def reason : FileError → Bytes
  | .missing => ascii "no such file or directory"
  | .notADirectory => ascii "not a directory"
  | .isDirectory => ascii "is a directory"
  | .nameTooLong => ascii "file name too long"
  | .invalidPath => ascii "invalid argument"

def message (path : Bytes) (e : FileError) : Bytes :=
  (if e.isOpenable then ascii "read " else ascii "open ") ++ path ++ ascii ": " ++ e.reason

end FileError

structure Host where
  directory : Bytes
  home : Bytes
  input : Bytes
  read : (path : Bytes) → Except FileError Bytes

end BlockScript
