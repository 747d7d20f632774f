import FilterLang.Number.Binary
/-!
Reading numbers from decimal text.

`toFloat?` reads a signed decimal with an optional fraction and exponent, or one
of the words for infinity and not-a-number, and gives the nearest number.
`toInt?` reads a signed whole number of 64 bits.
-/

namespace FilterLang.Decimal

def digitsValue (ds : List Char) : Nat :=
  ds.foldl (fun n d => n * 10 + (d.toNat - 48)) 0

/-- The number nearest to `± digits · 10^exponent`. An exponent that puts the
decimal beyond every number, or below every number, is cut short first. -/
def nearest (negative : Bool) (digits : List Char) (exponent : Int) : Float :=
  let n := digitsValue digits
  let leading : Int := digits.length + exponent
  if n = 0 ∨ leading < -400 then Number.ofRatio negative 0 1
  else if exponent > 400 then Number.ofRatio negative (Number.pow10 400) 1
  else if 0 ≤ exponent then Number.ofRatio negative (n * Number.pow10 exponent.toNat) 1
  else Number.ofRatio negative n (Number.pow10 (-exponent).toNat)

/-- An optional sign: whether it is a minus, and what follows. -/
def splitSign : List Char → Bool × List Char
  | '-' :: rest => (true, rest)
  | '+' :: rest => (false, rest)
  | rest => (false, rest)

/-- The exponent part of a number, with its sign. No text at all is exponent
zero. -/
def exponent? : List Char → Option Int
  | [] => some 0
  | c :: rest =>
    if c = 'e' ∨ c = 'E' then
      let (negative, ds) := splitSign rest
      if ds.isEmpty || !ds.all Char.isDigit then none
      else
        let n : Int := digitsValue ds
        some (if negative then -n else n)
    else none

/-- The words for infinity and not-a-number, in any case of letters. -/
def special? (negative : Bool) (s : List Char) : Option Float :=
  let word := String.ofList (s.map Char.toLower)
  if word = "inf" ∨ word = "infinity" then
    some (Number.assemble negative (Number.pow2 52) 972)
  else if word = "nan" then some (Float.ofBits 0x7FF8000000000000)
  else none

/-- The fraction after the whole digits of a number, and what follows it. -/
def splitFraction : List Char → List Char × List Char
  | '.' :: rest => (rest.takeWhile Char.isDigit, rest.dropWhile Char.isDigit)
  | rest => ([], rest)

/-- The number nearest to an unsigned decimal. -/
def unsigned? (negative : Bool) (s : List Char) : Option Float :=
  let whole := s.takeWhile Char.isDigit
  let (fraction, rest) := splitFraction (s.dropWhile Char.isDigit)
  if whole.isEmpty && fraction.isEmpty then special? negative s
  else (exponent? rest).map fun e =>
    nearest negative (whole ++ fraction) (e - fraction.length)

/-- The number that a text spells, if it spells one. -/
def toFloat? (s : List Char) : Option Float :=
  let (negative, rest) := splitSign s
  unsigned? negative rest

/-- The whole number of 64 bits that a text spells, if it spells one. -/
def toInt? (s : List Char) : Option Int :=
  let (negative, ds) := splitSign s
  if ds.isEmpty || !ds.all Char.isDigit then none
  else
    let n : Int := if negative then -(digitsValue ds : Int) else digitsValue ds
    if Number.clamp 64 n = n then some n else none

end FilterLang.Decimal
