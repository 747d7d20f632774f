import FilterLang.Number.Binary
/-!
Whole parts, remainders and rounding of numbers.

The whole parts and the remainder are exact: they are computed on the integers
that a number is made of, and the sign of a zero is kept. `roundTo` rounds to a
multiple of a precision, half away from zero, after moving the value away from
zero by its own representation error.
-/

namespace FilterLang.Number

/-- The number of which nothing is known. -/
def nan : Float := Float.ofBits 0x7FF8000000000000

def infinity : Float := assemble false (pow2 52) 972

/-- The whole number `± n`; a zero keeps the sign. -/
def ofWhole (negative : Bool) (n : Nat) : Float :=
  ofRatio negative n 1

/-- Replaces a number that is not whole by a whole one, chosen from its sign, its
whole part, the rest of its mantissa and the weight of the whole part's unit. -/
def mapWhole (choose : Bool → Nat → Nat → Nat → Nat) (x : Float) : Float :=
  match parts x with
  | .finite negative m q =>
    if 0 ≤ q then x
    else
      let unit := pow2 (-q).toNat
      ofWhole negative (choose negative (m / unit) (m % unit) unit)
  | _ => x

def truncate (x : Float) : Float :=
  mapWhole (fun _ n _ _ => n) x

/-- The largest whole number that is at most `x`. -/
def floor (x : Float) : Float :=
  mapWhole (fun negative n rest _ => if negative && rest ≠ 0 then n + 1 else n) x

/-- The whole number nearest to `x`, a half going away from zero. -/
def round (x : Float) : Float :=
  mapWhole (fun _ n rest unit => if 2 * rest ≥ unit then n + 1 else n) x

/-- The whole part of a number as an integer of 128 bits. A number out of range
gives the nearest such integer, and not-a-number gives zero. -/
def toInt128 (x : Float) : Int :=
  match parts x with
  | .nan => 0
  | .infinite negative => clamp 128 (if negative then -(pow2 127) else pow2 127)
  | .finite .. => clamp 128 ((toInt? (truncate x)).getD 0)

/-- The part of `x` after the point. -/
def fraction (x : Float) : Float :=
  x - truncate x

def powerOfTwo (n : Nat) : Float :=
  if n ≤ 1023 then ofRatio false (pow2 n) 1 else infinity

/-- The exact remainder of a division whose quotient is cut off toward zero; it
has the sign of `x`. -/
def remainder (x y : Float) : Float :=
  match parts x, parts y with
  | .finite negative m p, .finite _ n q =>
    if n = 0 then nan
    else
      let e := min p q
      let r := (m * pow2 (p - e).toNat) % (n * pow2 (q - e).toNat)
      if 0 ≤ e then ofRatio negative (r * pow2 e.toNat) 1
      else ofRatio negative r (pow2 (-e).toNat)
  | .finite .., .infinite _ => x
  | _, _ => nan

def zeroLike (x : Float) : Float :=
  ofWhole (signBit x) 0

/-- The quotient rounded down and the remainder with the sign of the divisor. -/
def divMod (x y : Float) : Float × Float :=
  let cut := remainder x y
  let whole := (x - cut) / y
  let (whole, rest) :=
    if cut != 0.0 then
      if (y < 0.0) != (cut < 0.0) then (whole - 1.0, cut + y) else (whole, cut)
    else (whole, zeroLike y)
  let quotient :=
    if whole != 0.0 then
      let f := floor whole
      if whole - f > 0.5 then f + 1.0 else f
    else zeroLike (x / y)
  (quotient, rest)

/-- The part of `x` above its floor, and the floor. -/
def splitFloor (x : Float) : Float × Float :=
  let part := remainder x 1.0
  (if part < 0.0 then part + 1.0 else part, floor x)

/-- `value` rounded to a multiple of `precision`, half away from zero. A precision
that is not positive rounds to whole numbers. -/
def roundTo (value precision : Float) : Float :=
  if value == 0.0 || value.isNaN then 0.0
  else
    let precision := if precision > 0.0 then precision else 1.0
    let normal := value / precision
    let epsilon := Float.pow 2.0 (Float.log2 normal.abs - 53.0)
    let moved := normal + (if normal ≥ 0.0 then epsilon else -epsilon)
    let sign := if moved < 0.0 then -1.0 else 1.0
    sign * round moved.abs * precision

/-- The precision of a number of digits after the point. -/
def decimalPrecision (decimals : Int) : Float :=
  Float.pow 10.0 (-(ofInt decimals))

/-- `value` rounded to a number of digits after the point; a negative number of
digits rounds to tens, hundreds and so on. -/
def roundDecimals (value : Float) (decimals : Int) : Float :=
  roundTo value (decimalPrecision decimals)

/-- Whether a value rounds to zero at a number of digits. -/
def isZeroAt (value : Float) (decimals : Int) : Bool :=
  (roundTo value (decimalPrecision decimals)).abs < decimalPrecision decimals

end FilterLang.Number
