import BlockScript.Eval.Error

/-! # Operators on values

Equality is defined for all values, the order and the sum for two numbers and for two strings, the other operators for
numbers only. -/

namespace BlockScript.Operator

def onNumbers? (operator : Bytes) : Option (Float → Float → Value) :=
  [(ascii "+", fun x y => .number (x + y)),
   (ascii "-", fun x y => .number (x - y)),
   (ascii "*", fun x y => .number (x * y)),
   (ascii "/", fun x y => .number (x / y)),
   (ascii "%", fun x y => .number (Binary64.remainder x y)),
   (ascii ">", fun x y => .boolean (y < x)),
   (ascii ">=", fun x y => .boolean (y ≤ x)),
   (ascii "<", fun x y => .boolean (x < y)),
   (ascii "<=", fun x y => .boolean (x ≤ y))].lookup operator

def onStrings? (operator : Bytes) : Option (Bytes → Bytes → Value) :=
  [(ascii "+", fun x y => .string (x ++ y)),
   (ascii ">", fun x y => .boolean (Bytes.less y x)),
   (ascii ">=", fun x y => .boolean (!Bytes.less x y)),
   (ascii "<", fun x y => .boolean (Bytes.less x y)),
   (ascii "<=", fun x y => .boolean (!Bytes.less y x))].lookup operator

def arithmetic? (operator : Bytes) : Value → Value → Option Value
  | .number x, .number y => (onNumbers? operator).map fun f => f x y
  | .string x, .string y => (onStrings? operator).map fun f => f x y
  | _, _ => none

def applyBinary (operator : Bytes) (left right : Value) : Except RuntimeError Value :=
  if operator = ascii "==" then .ok (.boolean (left.same right))
  else if operator = ascii "!=" then .ok (.boolean (!left.same right))
  else match arithmetic? operator left right with
    | some value => .ok value
    | none => .error (.typeMismatch (.binary operator left.type right.type))

def applyUnary (operator : Bytes) (operand : Value) : Except RuntimeError Value :=
  match operand with
  | .boolean b =>
    if operator = ascii "!" then .ok (.boolean !b) else .error (.typeMismatch (.unary operator .boolean))
  | .number x =>
    if operator = ascii "-" then .ok (.number (-x)) else .error (.typeMismatch (.unary operator .number))
  | value => .error (.typeMismatch (.unary operator value.type))

end BlockScript.Operator
