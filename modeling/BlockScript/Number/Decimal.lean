import BlockScript.Text.Bytes
import BlockScript.Number.Binary64

/-! # Decimal text of numbers

A number is written with the fewest decimal digits that read back as the same number, and of these with the ones
nearest to it. The digits are always laid out by position, never with an exponent. -/

namespace BlockScript.Decimal

/-- A positive decimal: the digits stand right after the point, moved to the right by `point` places. -/
structure Digits where
  digits : Nat
  count : Nat
  point : Int
  deriving DecidableEq, Repr

def digitCount (n : Nat) : Nat := (Nat.toDigits 10 n).length

def pointOf (num den : Nat) : Int :=
  let low : Int := digitCount num - digitCount den
  if den * Nat.pow 10 low.toNat ≤ num * Nat.pow 10 (-low).toNat then low + 1 else low

/-- A positive number as a fraction, with the open distances to the numbers halfway to its two neighbours, all over
one denominator. The halfway points themselves read back as the number iff its mantissa is even. -/
structure Interval where
  value : Nat
  below : Nat
  above : Nat
  den : Nat
  closed : Bool

/-- The least mantissa with 53 bits has its lower neighbour at half the usual distance. -/
def interval (mantissa : Nat) (exponent : Int) : Interval :=
  let unit := Nat.pow 2 exponent.toNat
  let narrow := mantissa = Nat.pow 2 52 && exponent > -1074
  ⟨4 * mantissa * unit, if narrow then unit else 2 * unit, 2 * unit, 4 * Nat.pow 2 (-exponent).toNat, mantissa % 2 = 0⟩

def Interval.holds (i : Interval) (distance reach : Nat) : Bool :=
  distance < reach || (distance = reach && i.closed)

/-- The decimal with `count` digits that reads back as the number, if there is one: of its neighbours on that grid the
nearer, and of two equally near the one with an even last digit. -/
def Interval.onGrid? (i : Interval) (point : Int) (count : Nat) : Option Nat :=
  -- In units of the grid the number is `num / den`.
  let shift := (count : Int) - point
  let up := Nat.pow 10 shift.toNat
  let den := i.den * Nat.pow 10 (-shift).toNat
  let num := i.value * up
  let floor := num / den
  let excess := num % den
  let lack := den - excess
  let down := i.holds excess (i.below * up)
  let upward := i.holds lack (i.above * up)
  if excess = 0 then some floor
  else if down && upward then some (Binary64.roundDiv num den)
  else if down then some floor
  else if upward then some (floor + 1)
  else none

/-- The fewest digits that read back; seventeen always do. -/
def shortest (mantissa : Nat) (exponent : Int) : Digits :=
  let i := interval mantissa exponent
  let point := pointOf i.value i.den
  let found := (List.range 17).findSome? fun k => (i.onGrid? point (k + 1)).map fun d => (d, k + 1)
  let (digits, count) := found.getD (0, 1)
  -- A nine that rounds up becomes a one in the place before it.
  if digits = Nat.pow 10 count then ⟨1, 1, point + 1⟩ else ⟨digits, count, point⟩

def zeros (n : Nat) : Bytes := List.replicate n '0'.toUInt8

def Digits.layout (d : Digits) : Bytes :=
  let text := Bytes.ofNat d.digits
  if d.point ≤ 0 then ascii "0." ++ zeros (-d.point).toNat ++ text
  else if d.count ≤ d.point.toNat then text ++ zeros (d.point.toNat - d.count)
  else text.take d.point.toNat ++ ascii "." ++ text.drop d.point.toNat

def text (x : Float) : Bytes :=
  match Binary64.ofFloat x with
  | .nan => ascii "NaN"
  | .infinite negative => if negative then ascii "-Inf" else ascii "+Inf"
  | .finite negative mantissa exponent =>
    let body := if mantissa = 0 then ascii "0" else (shortest mantissa exponent).layout
    if negative then ascii "-" ++ body else body

end BlockScript.Decimal
