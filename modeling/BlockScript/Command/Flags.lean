import BlockScript.Text.Bytes

/-! # Flags of the command line

Flags stand in front of the command and begin with one hyphen or two. There is a single flag, the path of a
configuration file, which stands behind an equals sign or is the next argument. -/

namespace BlockScript

structure Invocation where
  config : Bytes
  arguments : List Bytes
  deriving DecidableEq, Repr

inductive FlagError where
  | badSyntax (argument : Bytes)
  | undefined (name : Bytes)
  | missingValue (name : Bytes)
  | help
  deriving DecidableEq, Repr

namespace FlagError

def message? : FlagError → Option Bytes
  | badSyntax argument => some (ascii "bad flag syntax: " ++ argument)
  | undefined name => some (ascii "flag provided but not defined: -" ++ name)
  | missingValue name => some (ascii "flag needs an argument: -" ++ name)
  | help => none

end FlagError

namespace Invocation

def hyphen : UInt8 := '-'.toUInt8

def equalsSign : UInt8 := '='.toUInt8

inductive Shape where
  | operand
  | endOfFlags
  | malformed
  | flag (name : Bytes) (value : Option Bytes)

/-- The text of a flag without its hyphens. An equals sign behind its first byte begins the value. -/
def flagShape (text : Bytes) : Shape :=
  match text with
  | [] => .malformed
  | first :: rest =>
    if first = hyphen || first = equalsSign then .malformed
    else match Bytes.cut? equalsSign rest with
      | some (name, value) => .flag (first :: name) (some value)
      | none => .flag text none

def shape (argument : Bytes) : Shape :=
  match argument with
  | a :: b :: rest =>
    if a ≠ hyphen then .operand
    else if b ≠ hyphen then flagShape (b :: rest)
    else if rest.isEmpty then .endOfFlags
    else flagShape rest
  | _ => .operand

def parseFrom (config : Bytes) : List Bytes → Except FlagError Invocation
  | [] => .ok ⟨config, []⟩
  | argument :: rest =>
    match shape argument with
    | .operand => .ok ⟨config, argument :: rest⟩
    | .endOfFlags => .ok ⟨config, rest⟩
    | .malformed => .error (.badSyntax argument)
    | .flag name value =>
      if name = ascii "config" then
        match value with
        | some path => parseFrom path rest
        | none =>
          match rest with
          | path :: after => parseFrom path after
          | [] => .error (.missingValue name)
      else if name = ascii "help" || name = ascii "h" then .error .help
      else .error (.undefined name)

def parse (arguments : List Bytes) : Except FlagError Invocation := parseFrom [] arguments

end Invocation

end BlockScript
