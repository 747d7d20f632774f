/-!
Binary floating point numbers taken apart and put together exactly.

A finite number is `± m · 2^q` with a whole `m`. `parts` reads `m` and `q` off
the bits; `ofRatio` goes the other way and rounds any ratio of naturals to the
nearest number, a tie going to the even mantissa. Everything that has to be
exact (decimal texts, remainders, whole parts) is computed on these integers.
-/

namespace FilterLang.Number

def pow2 (n : Nat) : Nat :=
  Nat.pow 2 n

def pow10 (n : Nat) : Nat :=
  Nat.pow 10 n

/-- What the bits of a floating point number say. -/
inductive Parts where
  | nan
  | infinite (negative : Bool)
  | finite (negative : Bool) (mantissa : Nat) (exponent : Int)

/-- The sign, mantissa and exponent of a number. -/
def parts (x : Float) : Parts :=
  let bits := x.toBits.toNat
  let negative := bits ≥ pow2 63
  let biased : Nat := bits / pow2 52 % pow2 11
  let fraction : Nat := bits % pow2 52
  if biased = 2047 then
    if fraction = 0 then .infinite negative else .nan
  else if biased = 0 then .finite negative fraction (-1074)
  else .finite negative (pow2 52 + fraction) ((biased : Int) - 1075)

def signBit (x : Float) : Bool :=
  x.toBits.toNat ≥ pow2 63

/-- The quotient of two naturals rounded to the nearest natural, a half going to
the even neighbour. -/
def roundedQuotient (num den : Nat) : Nat :=
  let q := num / den
  let twice := 2 * (num % den)
  if twice < den then q
  else if twice > den then q + 1
  else if q % 2 = 0 then q else q + 1

/-- `num / den` scaled by `2^(-q)`, as a ratio. -/
def scaledRatio (num den : Nat) (q : Int) : Nat × Nat :=
  if 0 ≤ q then (num, den * pow2 q.toNat) else (num * pow2 (-q).toNat, den)

/-- The exponent at which `num / den` has a mantissa of 53 bits, or the least
exponent there is. -/
def ratioExponent (num den : Nat) : Int :=
  let guess : Int := (num.log2 : Int) - den.log2 - 52
  let (n, d) := scaledRatio num den guess
  let exact := if n / d < pow2 52 then guess - 1 else guess
  if exact < -1074 then -1074 else exact

/-- The number with the given sign, mantissa and exponent, for a mantissa of at
most 53 bits that fills them unless the exponent is the least one. -/
def assemble (negative : Bool) (mantissa : Nat) (exponent : Int) : Float :=
  let sign := if negative then pow2 63 else 0
  let magnitude :=
    if mantissa < pow2 52 then mantissa
    else if exponent > 971 then 2047 * pow2 52
    else (exponent + 1075).toNat * pow2 52 + (mantissa - pow2 52)
  Float.ofBits (UInt64.ofNat (sign + magnitude))

/-- The number nearest to `± num / den`, a tie going to the even mantissa. A
ratio past the largest number becomes infinite. -/
def ofRatio (negative : Bool) (num den : Nat) : Float :=
  if num = 0 then assemble negative 0 0
  else
    let q := ratioExponent num den
    let (n, d) := scaledRatio num den q
    let m := roundedQuotient n d
    if m = pow2 53 then assemble negative (pow2 52) (q + 1) else assemble negative m q

def ofInt (n : Int) : Float :=
  ofRatio (n < 0) n.natAbs 1

def toInt? (x : Float) : Option Int :=
  match parts x with
  | .finite negative m q =>
    let whole :=
      if 0 ≤ q then some (m * pow2 q.toNat)
      else if m % pow2 (-q).toNat = 0 then some (m / pow2 (-q).toNat) else none
    whole.map (fun (n : Nat) => if negative then -(n : Int) else (n : Int))
  | _ => none

/-- The integer nearest to an integer that fits in `bits` bits, sign included. -/
def clamp (bits : Nat) (n : Int) : Int :=
  let bound : Int := pow2 (bits - 1)
  if n < -bound then -bound else if n > bound - 1 then bound - 1 else n

/-- An integer that fits in `bits` bits, sign included. -/
def fit? (bits : Nat) (n : Int) : Option Int :=
  if clamp bits n = n then some n else none

theorem clamp_of_natAbs_lt {bits : Nat} {n : Int} (h : n.natAbs < pow2 (bits - 1)) :
    clamp bits n = n := by
  unfold clamp
  dsimp only
  rw [if_neg (by omega), if_neg (by omega)]

theorem fit?_of_natAbs_lt {bits : Nat} {n : Int} (h : n.natAbs < pow2 (bits - 1)) :
    fit? bits n = some n :=
  if_pos (clamp_of_natAbs_lt h)

theorem fit?_eq_some {bits : Nat} {n m : Int} (h : fit? bits n = some m) : m = n := by
  unfold fit? at h
  split at h
  · exact (Option.some.inj h).symm
  · cases h

/-- The integer of `bits` bits that agrees with an integer in its lowest bits. -/
def wrapBits (bits : Nat) (n : Int) : Int :=
  Int.bmod n (pow2 bits)

/-- The largest size up to which every whole number is a float. -/
def maxExact : Int := pow2 53

/-- The whole number a float stands for in the language, where a whole number
has 64 bits. -/
def integral? (x : Float) : Option Int :=
  (toInt? x).map (clamp 64)

end FilterLang.Number
