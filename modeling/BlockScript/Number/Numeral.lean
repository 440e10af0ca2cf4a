import BlockScript.Text.Bytes
import BlockScript.Number.Binary64

/-! # Reading numbers

The spellings of numbers: decimal digits with an optional sign, point and exponent, hexadecimal digits with an exponent
of two, and the names of infinity and of the value that is not a number. Digits may be grouped by single underscores. -/

namespace BlockScript.Numeral

def lower (b : UInt8) : UInt8 := if 'A'.toUInt8 ≤ b && b ≤ 'Z'.toUInt8 then b + 0x20 else b

def isSign (b : UInt8) : Bool := b = '+'.toUInt8 || b = '-'.toUInt8

def splitSign : Bytes → Bool × Bytes
  | [] => (false, [])
  | b :: rest => if isSign b then (b = '-'.toUInt8, rest) else (false, b :: rest)

inductive Radix where
  | ten
  | sixteen
  deriving DecidableEq, Repr

def Radix.base : Radix → Nat
  | .ten => 10
  | .sixteen => 16

def Radix.scaleBase : Radix → Nat
  | .ten => 10
  | .sixteen => 2

def Radix.digitWeight : Radix → Nat
  | .ten => 1
  | .sixteen => 4

def Radix.exponentMark : Radix → UInt8
  | .ten => 'e'.toUInt8
  | .sixteen => 'p'.toUInt8

def digit? (radix : Radix) (b : UInt8) : Option Nat :=
  let c := lower b
  if '0'.toUInt8 ≤ c && c ≤ '9'.toUInt8 then some (c.toNat - 48)
  else if radix = .sixteen && 'a'.toUInt8 ≤ c && c ≤ 'f'.toUInt8 then some (c.toNat - 87)
  else none

def isDigit (radix : Radix) (b : UInt8) : Bool := (digit? radix b).isSome

def underscore : UInt8 := '_'.toUInt8

def point : UInt8 := '.'.toUInt8

def splitRadix : Bytes → Radix × Bytes
  | zero :: x :: b :: rest =>
    if zero = '0'.toUInt8 && lower x = 'x'.toUInt8 then (.sixteen, b :: rest) else (.ten, zero :: x :: b :: rest)
  | text => (.ten, text)

def digitsValue (radix : Radix) (text : Bytes) : Nat :=
  (text.filterMap (digit? radix)).foldl (fun n d => n * radix.base + d) 0

def digitsCount (radix : Radix) (text : Bytes) : Nat := (text.filter (isDigit radix)).length

/-- The size of an exponent; beyond five digits it is cut off, since it is out of every range. -/
def exponentSize (text : Bytes) : Nat :=
  (text.filterMap (digit? .ten)).foldl (fun n d => if n < 10000 then n * 10 + d else n) 0

def exponent? (text : Bytes) : Option Int :=
  let (negative, size) := splitSign text
  let wellFormed := size.head?.any (isDigit .ten) && size.all fun b => isDigit .ten b || b = underscore
  if !wellFormed then none
  else if negative then some (-(exponentSize size : Int))
  else some (exponentSize size)

/-- Every underscore stands between two digits; `afterDigit` tells whether a digit stands in front of the text. -/
def grouped (radix : Radix) : (afterDigit : Bool) → Bytes → Bool
  | _, [] => true
  | afterDigit, b :: rest =>
    if b = underscore then afterDigit && rest.head?.any (isDigit radix) && grouped radix false rest
    else grouped radix (isDigit radix b) rest

structure Parts where
  radix : Radix
  whole : Bytes
  fraction : Bytes
  exponent : Int

def parts? (text : Bytes) : Option Parts :=
  let (radix, body) := splitRadix text
  let (mantissa, rest) := body.span fun b => isDigit radix b || b = underscore || b = point
  let (whole, fraction) := (Bytes.cut? point mantissa).getD (mantissa, [])
  let wellFormed := mantissa.any (isDigit radix) && !fraction.contains point && grouped radix (radix = .sixteen) body
  if !wellFormed then none
  else match rest with
    | [] => if radix = .ten then some ⟨radix, whole, fraction, 0⟩ else none
    | mark :: size =>
      if lower mark = radix.exponentMark then (exponent? size).map fun e => ⟨radix, whole, fraction, e⟩ else none

def Parts.value? (p : Parts) (negative : Bool) : Option Float :=
  let mantissa := digitsValue p.radix (p.whole ++ p.fraction)
  let exponent := p.exponent - p.radix.digitWeight * digitsCount p.radix p.fraction
  let base := p.radix.scaleBase
  if mantissa = 0 then some (Binary64.assemble negative 0)
  else Binary64.ofFraction? negative (mantissa * Nat.pow base exponent.toNat) (Nat.pow base (-exponent).toNat)

def named? (text : Bytes) : Option Float :=
  let (negative, name) := splitSign text
  let name := name.map lower
  if name = ascii "inf" || name = ascii "infinity" then some (Binary64.infinity negative)
  else if text.map lower = ascii "nan" then some Binary64.notANumber
  else none

/-- The number that a text spells: the nearest one there is. A text that is no numeral has none, and neither has one
beyond the largest finite number. -/
def read? (text : Bytes) : Option Float :=
  match named? text with
  | some x => some x
  | none =>
    let (negative, body) := splitSign text
    (parts? body).bind fun p => p.value? negative

end BlockScript.Numeral
