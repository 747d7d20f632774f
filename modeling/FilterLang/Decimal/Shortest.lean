import FilterLang.Number.Binary
/-!
The shortest decimal that reads back as a given number.

A finite positive number `m · 2^q` is what every real of an interval around it
rounds to; the ends belong to the interval exactly when `m` is even. For one
digit, two digits and so on, the two neighbours of the number on the grid of
decimals with that many digits are tested; the first grid with a hit gives the
answer, and of two hits the nearer one.
-/

namespace FilterLang.Decimal

/-- A positive decimal: `digits · 10^exponent`. -/
structure Scientific where
  digits : Nat
  exponent : Int
deriving DecidableEq

/-- Which way an exact half goes when two decimals are equally near. -/
inductive Tie where
  | up
  | even
deriving DecidableEq

/-- The interval of reals that round to `m · 2^q`, in units of `2^(q - 2)`. -/
structure Interval where
  low : Nat
  value : Nat
  high : Nat
  closed : Bool
  scale : Int

/-- The interval of the number `m · 2^q`. Below a power of two the numbers lie
twice as dense, so the lower end is nearer there. -/
def Interval.around (m : Nat) (q : Int) : Interval :=
  { low := if m = Number.pow2 52 ∧ q > -1074 then 4 * m - 1 else 4 * m - 2
    value := 4 * m
    high := 4 * m + 2
    closed := m % 2 = 0
    scale := q - 2 }

/-- `a · 2^p` and `b · 10^k` brought to naturals in the same unit. -/
def commonUnit (p : Int) (k : Int) : Nat × Nat :=
  let two := if 0 ≤ p then Number.pow2 p.toNat else 1
  let ten := if 0 ≤ k then Number.pow10 k.toNat else 1
  let twoDen := if 0 ≤ p then 1 else Number.pow2 (-p).toNat
  let tenDen := if 0 ≤ k then 1 else Number.pow10 (-k).toNat
  (two * tenDen, ten * twoDen)

/-- Whether `d · 10^k` lies in the interval. -/
def Interval.contains (i : Interval) (d : Nat) (k : Int) : Bool :=
  let (u, t) := commonUnit i.scale k
  if i.closed then i.low * u ≤ d * t && d * t ≤ i.high * u
  else i.low * u < d * t && d * t < i.high * u

/-- The largest `d` with `d · 10^k` at most the number. -/
def Interval.below (i : Interval) (k : Int) : Nat :=
  let (u, t) := commonUnit i.scale k
  i.value * u / t

/-- Of the two neighbours of the number on the grid of multiples of `10^k`, the
one that reads back, and the nearer one if both do. -/
def Interval.pick (tie : Tie) (i : Interval) (k : Int) : Option Nat :=
  let d := i.below k
  match i.contains d k && d ≠ 0, i.contains (d + 1) k with
  | true, true =>
    let (u, t) := commonUnit i.scale k
    let down := i.value * u - d * t
    let up := (d + 1) * t - i.value * u
    if down < up then some d
    else if up < down then some (d + 1)
    else match tie with
      | .up => some (d + 1)
      | .even => if d % 2 = 0 then some d else some (d + 1)
  | true, false => some d
  | false, true => some (d + 1)
  | false, false => none

/-- Tries the grids from coarse to fine, `steps` of them. -/
def Interval.search (tie : Tie) (i : Interval) : Nat → Int → Scientific
  | 0, k => { digits := i.below k, exponent := k }
  | steps + 1, k =>
    match i.pick tie k with
    | some d => { digits := d, exponent := k }
    | none => i.search tie steps (k - 1)

/-- A power of ten above the number `m · 2^q`, as an exponent. The first grid
tried has at most one digit. -/
def topExponent (m : Nat) (q : Int) : Int :=
  let bits : Int := (m.log2 : Int) + 1 + q
  if 0 ≤ bits then bits * 30103 / 100000 + 1 else bits * 30102 / 100000 + 1

/-- Drops the zeros at the end of the digits. -/
def stripZeros : Nat → Scientific → Scientific
  | 0, s => s
  | fuel + 1, s =>
    if s.digits ≠ 0 ∧ s.digits % 10 = 0 then
      stripZeros fuel { digits := s.digits / 10, exponent := s.exponent + 1 }
    else s

/-- The shortest decimal that reads back as `m · 2^q`, for a positive `m`. -/
def shortest (tie : Tie) (m : Nat) (q : Int) : Scientific :=
  stripZeros 20 ((Interval.around m q).search tie 20 (topExponent m q))

end FilterLang.Decimal
