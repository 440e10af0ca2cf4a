import BlockScript.Yaml.Handle

/-! # Tokens of a YAML stream

The stream is cut into tokens that make its structure explicit: indentation appears as the beginning and the end of
block collections, and a key is announced by a token of its own. -/

namespace BlockScript.Yaml

inductive Style where
  | plain
  | quoted
  | block
  deriving DecidableEq, Repr

inductive TokenKind where
  | directive (directive : Directive)
  | documentStart
  | documentEnd
  | blockSequenceStart
  | blockMappingStart
  | blockEnd
  | flowSequenceStart
  | flowSequenceEnd
  | flowMappingStart
  | flowMappingEnd
  | blockEntry
  | flowEntry
  | key
  | value
  | reference (name : List Char)
  | anchor (name : List Char)
  | tag (tag : WrittenTag)
  | scalar (text : List Char) (style : Style)
  | streamEnd
  deriving DecidableEq, Repr

structure Token where
  kind : TokenKind
  line : Nat
  deriving DecidableEq, Repr

end BlockScript.Yaml
