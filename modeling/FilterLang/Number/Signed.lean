import FilterLang.Decimal.Reader
import FilterLang.Number.Rounding
/-!
Numbers whose not-a-number has a sign.

A float does not show the sign of a not-a-number, but a number of the language
has one. Arithmetic takes it over from its operands, and a not-a-number that
comes out of numbers alone is negative. Equality and texts do not depend on the
sign; the key under which a dict finds a number does.
-/

namespace FilterLang

/-- A number of the language. -/
structure Numeric where
  float : Float
  /-- Whether this is a negative not-a-number. -/
  negativeNan : Bool := false

namespace Numeric

/-- A float as a number; a not-a-number counts as positive. -/
def ofFloat (x : Float) : Numeric :=
  { float := x }

/-- A float as a number, with the sign to take if it is a not-a-number. -/
def withSign (x : Float) (negative : Bool) : Numeric :=
  { float := x, negativeNan := x.isNaN && negative }

def isNan (x : Numeric) : Bool :=
  x.float.isNaN

/-- The sign that a not-a-number gets as a result: that of the first operand that
is one, and else a minus. -/
def resultSign (x y : Numeric) : Bool :=
  if x.isNan then x.negativeNan else if y.isNan then y.negativeNan else true

def map₂ (op : Float → Float → Float) (x y : Numeric) : Numeric :=
  withSign (op x.float y.float) (resultSign x y)

def negate (x : Numeric) : Numeric :=
  withSign (-x.float) (!x.negativeNan)

/-- The number without its sign. -/
def magnitude (x : Numeric) : Numeric :=
  ofFloat x.float.abs

/-- The whole number next to a number toward zero. -/
def truncate (x : Numeric) : Numeric :=
  withSign (Number.truncate x.float) x.negativeNan

/-- Whether a float is an odd whole number. -/
def isOdd (x : Float) : Bool :=
  match Number.toInt? x with
  | some n => n % 2 == 1
  | none => false

/-- A number raised to a power. An odd power of a negative not-a-number is the
positive one. -/
def power (x y : Numeric) : Numeric :=
  withSign (Float.pow x.float y.float) (resultSign x y && !(x.isNan && isOdd y.float))

/-- A number rounded to a number of digits after the point. Where the precision is
infinite, a finite number becomes a product of zero and infinity. -/
def roundDecimals (x : Numeric) (decimals : Int) : Numeric :=
  withSign (Number.roundDecimals x.float decimals) x.float.isFinite

def bits (x : Numeric) : UInt64 :=
  if x.negativeNan then 0xFFF8000000000000 else x.float.toBits

/-- The number that a text spells, if it spells one. -/
def ofText? (s : List Char) : Option Numeric :=
  (Decimal.toFloat? s).map (withSign · (Decimal.splitSign s).1)

end Numeric

end FilterLang
