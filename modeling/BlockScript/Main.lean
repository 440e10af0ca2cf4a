import BlockScript.Command.Run

/-! # The program

The outer layer of the command line tool: it gathers the host, and puts the outcome where it belongs. -/

namespace BlockScript.Main

def bytes (text : String) : Bytes := text.toUTF8.toList

def string (bytes : Bytes) : String := (String.fromUTF8? ⟨bytes.toArray⟩).getD ""

def invalidArgument : UInt32 := 22

/-- An error that names the file comes from opening it, one that does not from reading it. A name that is too long counts
as a kind of invalid argument. -/
def fileError : IO.Error → FileError
  | .inappropriateType (some _) _ _ => .notADirectory
  | .inappropriateType none _ _ => .isDirectory
  | .invalidArgument _ code _ => if code = invalidArgument then .invalidPath else .nameTooLong
  | _ => .missing

def readFile (path : Bytes) : IO (Except FileError Bytes) := do
  match ← (IO.FS.readBinFile (string path)).toBaseIO with
  | .ok content => return .ok content.toList
  | .error e => return .error (fileError e)

def gather (arguments : List Bytes) : IO Host := do
  let directory := bytes (← IO.currentDir).toString
  let home := match ← IO.getEnv "HOME" with
    | some home => Path.absolute directory (bytes home)
    | none => directory
  let mut found := []
  for path in Command.files directory home arguments do
    found := (path, ← readFile path) :: found
  let files := found
  let input ← if Command.readsInput arguments then (← IO.getStdin).readBinToEnd else pure .empty
  return ⟨directory, home, input.toList, fun path => (files.lookup path).getD (.error .missing)⟩

def write (stream : IO.FS.Stream) (text : Bytes) : IO Unit := do
  stream.write ⟨text.toArray⟩
  stream.flush

end BlockScript.Main

open BlockScript in
def main (arguments : List String) : IO UInt32 := do
  let arguments := arguments.map Main.bytes
  let host ← Main.gather arguments
  let outcome := Command.execute host arguments
  Main.write (← IO.getStdout) outcome.output
  Main.write (← IO.getStderr) outcome.errors
  if let some history := outcome.history then
    try IO.FS.writeBinFile (Main.string (Command.historyPath host)) ⟨history.toArray⟩ catch _ => pure ()
  return outcome.code.toUInt32
