import BlockScript.Syntax.Tree
import BlockScript.Number.Decimal

/-! # Values

What expressions and statements produce. A function value knows the scope it was declared in; scopes themselves live in
a store, and a value refers to one by its number. -/

namespace BlockScript

abbrev ScopeId := Nat

/-- Where a function value comes from. A scope declares a name only once, so a declared function is told from all others
by its scope and its name; functions supplied from outside carry a tag instead. -/
inductive Origin where
  | declaredIn (scope : ScopeId)
  | supplied (tag : Nat)
  deriving DecidableEq, Repr

structure Closure where
  name : Name
  parameters : List Name
  origin : Origin
  body : Block

namespace Closure

def scope? (f : Closure) : Option ScopeId :=
  match f.origin with
  | .declaredIn scope => some scope
  | .supplied _ => none

def text (f : Closure) : Bytes :=
  ascii "<fn " ++ (if f.name.isEmpty then ascii "anonymous" else f.name) ++ ascii ">"

end Closure

inductive ValueType where
  | null
  | number
  | boolean
  | string
  | function
  | absent
  deriving DecidableEq, Repr

def ValueType.text : ValueType → Bytes
  | .null => ascii "null"
  | .number => ascii "number"
  | .boolean => ascii "boolean"
  | .string => ascii "string"
  | .function => ascii "function"
  | .absent => ascii "nil"

inductive Value where
  | null
  | number (value : Float)
  | boolean (value : Bool)
  | string (value : Bytes)
  | function (value : Closure)
  /-- No value where there should be one. No program produces it, but it can be supplied from outside. -/
  | absent
  deriving Inhabited

namespace Value

def type : Value → ValueType
  | null => .null
  | number _ => .number
  | boolean _ => .boolean
  | string _ => .string
  | function _ => .function
  | absent => .absent

def text : Value → Bytes
  | null => ascii "null"
  | number value => Decimal.text value
  | boolean value => if value then ascii "true" else ascii "false"
  | string value => value
  | function value => value.text
  | absent => ascii "nil"

/-- Values of different types differ, numbers are compared as numbers, and a function is the same only as itself. -/
def same : Value → Value → Bool
  | null, null => true
  | number x, number y => x == y
  | boolean x, boolean y => x == y
  | string x, string y => x == y
  | function f, function g => f.origin = g.origin && f.name = g.name
  | absent, absent => true
  | _, _ => false

end Value

end BlockScript
