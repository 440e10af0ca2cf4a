import BlockScript.Text.Quoted
import BlockScript.Eval.Machine

/-! # Log lines

A log entry has a level, a message and named fields, and is written as one line of `key=value` pairs. A logger drops the
entries that are less severe than its own level. -/

namespace BlockScript.Log

inductive Level where
  | panic
  | fatal
  | error
  | warning
  | info
  | debug
  | trace
  deriving DecidableEq, Repr

namespace Level

def all : List Level := [.panic, .fatal, .error, .warning, .info, .debug, .trace]

def text : Level → Bytes
  | .panic => ascii "panic"
  | .fatal => ascii "fatal"
  | .error => ascii "error"
  | .warning => ascii "warning"
  | .info => ascii "info"
  | .debug => ascii "debug"
  | .trace => ascii "trace"

def severity (level : Level) : Nat := all.idxOf level

/-- The lower case form of a character whose form is ASCII; two characters beyond ASCII have one. -/
def lower (c : Char) : Char :=
  if 'A' ≤ c && c ≤ 'Z' then Char.ofNat (c.toNat + 0x20)
  else if c.toNat = 0x130 then 'i'
  else if c.toNat = 0x212A then 'k'
  else c

def ofText? (text : Bytes) : Option Level :=
  let name := (Utf8.glyphs text).flatMap fun g => if g.isBroken then g.bytes else Utf8.encode (lower g.char)
  if name = ascii "warn" then some .warning else all.find? fun level => level.text = name

end Level

def badLevelMessage (text : Bytes) : Bytes :=
  ascii "log_level: not a valid logrus Level: " ++ Quoted.text text

structure Entry where
  level : Level
  message : Bytes
  fields : List (Bytes × Bytes)
  deriving DecidableEq, Repr

def isPlain (b : UInt8) : Bool :=
  let c := Char.ofNat b.toNat
  c.isAlphanum || c ∈ ['-', '.', '_', '/', '@', '^', '+']

def value (text : Bytes) : Bytes := if text.all isPlain then text else Quoted.text text

def pair (key text : Bytes) : Bytes := key ++ ascii "=" ++ value text

def ownKeys : List Bytes := [ascii "time", ascii "msg", ascii "level", ascii "logrus_error"]

/-- Fields under a key of the line's own are moved aside, and take the place of a field that is already there. -/
def clearedFields (fields : List (Bytes × Bytes)) : List (Bytes × Bytes) :=
  let moved := (fields.filter fun (key, _) => ownKeys.contains key).map fun (key, text) => (ascii "fields." ++ key, text)
  let kept := fields.filter fun (key, _) => !ownKeys.contains key && (moved.lookup key).isNone
  kept ++ moved

def Entry.line (e : Entry) : Bytes :=
  let sorted := (clearedFields e.fields).mergeSort fun (k, _) (k', _) => !Bytes.less k' k
  let message := if e.message.isEmpty then [] else [pair (ascii "msg") e.message]
  Bytes.join (ascii " ") (pair (ascii "level") e.level.text :: message ++ sorted.map fun (key, text) => pair key text)

def lines (level : Level) (entries : List Entry) : List Bytes :=
  (entries.filter fun e => e.level.severity ≤ level.severity).map Entry.line

def ofEvent (event : Event) : Entry :=
  let component := (ascii "component", ascii "exec")
  let depthField (depth : Nat) := (ascii "depth", Bytes.ofNat depth)
  match event with
  | .declare name kind depth =>
    ⟨.trace, ascii "declare", [component, depthField depth, (ascii "kind", kind.text), (ascii "name", name)]⟩
  | .declareFunction name depth =>
    ⟨.trace, ascii "declare function", [component, depthField depth, (ascii "name", name)]⟩
  | .enterBlock depth => ⟨.trace, ascii "enter block", [component, depthField depth]⟩
  | .call name depth => ⟨.debug, ascii "call", [component, depthField depth, (ascii "name", name)]⟩

end BlockScript.Log
