/-! # Binary floating point

A number of the language is a 64-bit binary floating point number. This module splits one into sign, mantissa and
exponent, rounds a fraction of natural numbers to the nearest one, and gives the exact remainder of a division. -/

namespace BlockScript

/-- The parts of a number: a finite one is the mantissa times two to the power of the exponent. -/
inductive Binary64 where
  | nan
  | infinite (negative : Bool)
  | finite (negative : Bool) (mantissa : Nat) (exponent : Int)
  deriving DecidableEq, Repr

namespace Binary64

def ofFloat (x : Float) : Binary64 :=
  let bits := x.toBits.toNat
  let negative : Bool := bits / Nat.pow 2 63 % 2 = 1
  let field : Nat := bits / Nat.pow 2 52 % Nat.pow 2 11
  let fraction := bits % Nat.pow 2 52
  if field = 2047 then
    if fraction = 0 then .infinite negative else .nan
  else if field = 0 then .finite negative fraction (-1074)
  else .finite negative (fraction + Nat.pow 2 52) (field - 1075)

def assemble (negative : Bool) (magnitude : Nat) : Float :=
  .ofBits (UInt64.ofNat (magnitude + if negative then Nat.pow 2 63 else 0))

def infinity (negative : Bool) : Float := assemble negative (2047 * Nat.pow 2 52)

def notANumber : Float := assemble false (2047 * Nat.pow 2 52 + 1)

def roundDiv (num den : Nat) : Nat :=
  let q := num / den
  let twice := 2 * (num % den)
  if twice > den || (twice = den && q % 2 = 1) then q + 1 else q

def scale (num den : Nat) (exponent : Int) : Nat × Nat :=
  (num * Nat.pow 2 (-exponent).toNat, den * Nat.pow 2 exponent.toNat)

/-- The exponent at which a positive fraction has a mantissa of 53 bits, or the least one there is. -/
def exponentOf (num den : Nat) : Int :=
  let low : Int := num.log2 - den.log2 - 53
  let (n, d) := scale num den low
  max (if n / d < Nat.pow 2 53 then low else low + 1) (-1074)

/-- The number nearest to a fraction; none if that is beyond the largest finite number. -/
def ofFraction? (negative : Bool) (num den : Nat) : Option Float :=
  if num = 0 then some (assemble negative 0)
  else
    let exponent := exponentOf num den
    let (n, d) := scale num den exponent
    -- A mantissa that rounds up to 54 bits carries into the exponent field, as it should.
    let magnitude := (exponent + 1074).toNat * Nat.pow 2 52 + roundDiv n d
    if magnitude < 2047 * Nat.pow 2 52 then some (assemble negative magnitude) else none

/-- The remainder of the division of `x` by `y` truncated toward zero. It is exact and takes the sign of `x`. -/
def remainder (x y : Float) : Float :=
  match ofFloat x, ofFloat y with
  | .finite _ _ _, .infinite _ => x
  | .finite negative m e, .finite _ m' e' =>
    if m' = 0 then notANumber
    else
      let low := min e e'
      let r := (m * Nat.pow 2 (e - low).toNat) % (m' * Nat.pow 2 (e' - low).toNat)
      let (num, den) := scale r 1 (-low)
      (ofFraction? negative num den).getD notANumber
  | _, _ => notANumber

end Binary64

end BlockScript
