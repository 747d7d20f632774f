import FilterLang.Json.Basic
import FilterLang.Decimal.Reader
/-!
Numbers in JSON text.

A number without fraction and exponent that fits in 64 bits is whole; minus zero
and every other number is a float. A float is read from at most 64 bits of
digits, scaled by a power of ten in floating point arithmetic, so that the last
bit of a long decimal may differ from the nearest number.
-/

namespace FilterLang.Json

def maxSignificand : Nat := Number.pow2 64 - 1

def spanDigits (s : List Char) : List Char × List Char :=
  (s.takeWhile Char.isDigit, s.dropWhile Char.isDigit)

/-- Appends digits to a significand while they fit: the significand, and how many
digits were left over. -/
def fillSignificand (n : Nat) : List Char → Nat × Nat
  | [] => (n, 0)
  | d :: rest =>
    let next := n * 10 + (d.toNat - 48)
    if next ≤ maxSignificand then fillSignificand next rest else (n, rest.length + 1)

def powerOfTen (k : Nat) : Float :=
  Number.ofRatio false (Number.pow10 k) 1

/-- Divides by 10^308 until the exponent is within the range of the powers of
ten. Gives nothing when the number is too large. -/
def scaleDown : Nat → Float → Int → Option (Float × Int)
  | 0, f, e => some (f, e)
  | steps + 1, f, e =>
    if e.natAbs ≤ 308 then some (f, e)
    else if f == 0.0 then some (f, 0)
    else if 0 ≤ e then none
    else scaleDown steps (f / powerOfTen 308) (e + 308)

/-- The float `± significand · 10^exponent`, if it is finite. -/
def scaled? (negative : Bool) (significand : Nat) (exponent : Int) : Option Float :=
  match scaleDown 10 (Float.ofNat significand) exponent with
  | none => none
  | some (f, e) =>
    let g := if 0 ≤ e then f * powerOfTen e.natAbs
      else if e.natAbs ≤ 308 then f / powerOfTen e.natAbs else f
    if g.isInf then none else some (if negative then -g else g)

/-- The exponent at the start of a text, and what follows it. A text without an
exponent mark has exponent zero. -/
def readExponent (zero : Bool) (s : List Char) : Option (Option Int × List Char) :=
  match s with
  | c :: rest =>
    if c = 'e' ∨ c = 'E' then
      let (negative, rest) := Decimal.splitSign rest
      let (ds, rest) := spanDigits rest
      if ds.isEmpty then none
      else
        let n : Int := Decimal.digitsValue ds
        if n ≤ 2147483647 then some (some (if negative then -n else n), rest)
        else if !zero && !negative then none
        else some (none, rest)
    else some (some 0, s)
  | [] => some (some 0, s)

/-- The number at the start of a text, the minus sign having been read. -/
def readUnsigned (negative : Bool) (s : List Char) : Option (Json × List Char) := do
  let (whole, rest) := spanDigits s
  if whole.isEmpty || (whole.length > 1 && whole.head? == some '0') then none
  else
    let (n, dropped) := fillSignificand 0 whole
    match rest with
    | '.' :: tail =>
      let (fraction, rest) := spanDigits tail
      if fraction.isEmpty then none
      else
        let (m, left) := fillSignificand n fraction
        let places : Int := dropped - (fraction.length - left : Nat)
        let (e, rest) ← readExponent (m == 0) rest
        match e with
        | some e => (scaled? negative m (places + e)).map fun x => (.float x, rest)
        | none => some (.float (if negative then -0.0 else 0.0), rest)
    | _ =>
      let (e, after) ← readExponent (n == 0) rest
      if after.length = rest.length ∧ dropped = 0 ∧ !(negative && (n == 0 || n > Number.pow2 63)) then
        some (.int (if negative then -(n : Int) else n), after)
      else
        match e with
        | some e => (scaled? negative n (dropped + e)).map fun x => (.float x, after)
        | none => some (.float (if negative then -0.0 else 0.0), after)

/-- The number at the start of a text, and what follows it. -/
def readNumber : List Char → Option (Json × List Char)
  | '-' :: rest => readUnsigned true rest
  | s => readUnsigned false s

end FilterLang.Json
