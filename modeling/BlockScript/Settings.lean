import BlockScript.Log
import BlockScript.Token.Scan

/-! # Settings

The settings of the language and its command line tool, and what can be wrong with them. What does not fit in a document
is reported all at once, each with its line. -/

namespace BlockScript

structure Settings where
  lineTerminator : Bytes
  logLevel : Bytes
  color : Bool
  deriving DecidableEq, Repr

namespace Settings

def default : Settings := ⟨Source.defaultTerminator, ascii "warn", true⟩

def level? (s : Settings) : Option Log.Level := Log.Level.ofText? s.logLevel

/-! ## Errors -/

structure Complaint where
  line : Nat
  text : Bytes
  deriving DecidableEq, Repr

def Complaint.message (c : Complaint) : Bytes := ascii "line " ++ Bytes.ofNat c.line ++ ascii ": " ++ c.text

end Settings

inductive SettingsError where
  | malformed
  | misfits (complaints : List Settings.Complaint)
  | emptyTerminator
  | badLevel (level : Bytes)
  deriving DecidableEq, Repr

def SettingsError.message : SettingsError → Bytes
  | malformed => ascii "parse: yaml: malformed document"
  | misfits complaints =>
    ascii "parse: yaml: unmarshal errors:\n  " ++
      Bytes.join (ascii "\n  ") (complaints.map Settings.Complaint.message)
  | emptyTerminator => ascii "line_terminator must not be empty"
  | badLevel level => Log.badLevelMessage level

namespace Settings

def validate (s : Settings) : Except SettingsError Settings :=
  if s.lineTerminator.isEmpty then .error .emptyTerminator
  else if s.level?.isNone then .error (.badLevel s.logLevel)
  else .ok s

end Settings

end BlockScript
