import FilterLang.Decimal.Shortest
/-!
How numbers are written.

`plain` is the language's own spelling: the shortest digits that read back, never
an exponent, no fraction for a whole number. `json` is the spelling of JSON
texts: the same digits, with a fraction kept on whole numbers and an exponent
outside the range from 10^-5 to 10^16.
-/

namespace FilterLang.Decimal

def natDigits (n : Nat) : List Char :=
  Nat.toDigits 10 n

/-- Digits with the point put `exponent` places right of their end, zeros filling
the gaps. -/
def positional (digits : List Char) (exponent : Int) : List Char × List Char :=
  if 0 ≤ exponent then (digits ++ List.replicate exponent.toNat '0', [])
  else
    let places := (-exponent).toNat
    let padded := List.replicate (places + 1 - digits.length) '0' ++ digits
    (padded.take (padded.length - places), padded.drop (padded.length - places))

def signText (negative : Bool) : String :=
  if negative then "-" else ""

/-- The language's spelling of a number. -/
def plain (x : Float) : String :=
  match Number.parts x with
  | .nan => "nan"
  | .infinite negative => signText negative ++ "inf"
  | .finite negative m q =>
    if m = 0 then signText negative ++ "0"
    else
      let s := shortest .up m q
      let (whole, fraction) := positional (natDigits s.digits) s.exponent
      let tail := if fraction.isEmpty then [] else '.' :: fraction
      signText negative ++ String.ofList (whole ++ tail)

/-- The exponent part of a JSON number, always signed. -/
def exponentText (e : Int) : String :=
  if e < 0 then "e-" ++ toString e.natAbs else "e+" ++ toString e.natAbs

def json (x : Float) : String :=
  match Number.parts x with
  | .nan | .infinite _ => "null"
  | .finite negative m q =>
    if m = 0 then signText negative ++ "0.0"
    else
      let s := shortest .even m q
      let digits := natDigits s.digits
      let leading : Int := s.exponent + digits.length - 1
      if -5 ≤ leading ∧ leading < 16 then
        let (whole, fraction) := positional digits s.exponent
        let tail := if fraction.isEmpty then ['0'] else fraction
        signText negative ++ String.ofList (whole ++ '.' :: tail)
      else
        let mantissa := match digits with
          | d :: e :: rest => d :: '.' :: e :: rest
          | short => short
        signText negative ++ String.ofList mantissa ++ exponentText leading

end FilterLang.Decimal
