import FilterLang.Calendar.Date
import FilterLang.Decimal.Reader
import FilterLang.Json.Basic
import FilterLang.Text.Padding
/-!
The single values of TOML that are not strings: truth values, numbers, dates and
times of day.

They become native documents. A number that is not finite becomes nothing, and a
date or a time becomes an object with its text as the one member.
-/

namespace FilterLang.Toml

/-- Digits with single underscores between them, the underscores taken out. -/
def digits? (isDigit : Char → Bool) : List Char → Option (List Char)
  | [] => none
  | [c] => if isDigit c then some [c] else none
  | c :: '_' :: rest => if isDigit c then (digits? isDigit rest).map (c :: ·) else none
  | c :: rest => if isDigit c then (digits? isDigit rest).map (c :: ·) else none

/-- The digits of a decimal whole number, which has no superfluous zero in
front. -/
def wholeDigits? (s : List Char) : Option (List Char) :=
  match digits? Char.isDigit s with
  | some ds => if ds.length > 1 && ds.head? == some '0' then none else some ds
  | none => none

/-- The value of digits in a base, as a hexadecimal digit reads. -/
def valueIn (base : Nat) (ds : List Char) : Nat :=
  ds.foldl (fun n d => n * base + (Text.hexValue? d).getD 0) 0

def isDigitOf (base : Nat) (c : Char) : Bool :=
  match Text.hexValue? c with
  | some n => n < base
  | none => false

/-- A whole number of 64 bits. -/
def ofWhole? (n : Int) : Option Json :=
  if Number.clamp 64 n = n then some (.int n) else none

/-- A whole number: decimal with an optional sign, or without one in the base that
a mark in front tells. -/
def integer? : List Char → Option Json
  | '0' :: 'x' :: ds => (digits? (isDigitOf 16) ds).bind fun ds => ofWhole? (valueIn 16 ds)
  | '0' :: 'o' :: ds => (digits? (isDigitOf 8) ds).bind fun ds => ofWhole? (valueIn 8 ds)
  | '0' :: 'b' :: ds => (digits? (isDigitOf 2) ds).bind fun ds => ofWhole? (valueIn 2 ds)
  | s =>
    let (negative, ds) := Decimal.splitSign s
    (wholeDigits? ds).bind fun ds =>
      let n := Decimal.digitsValue ds
      ofWhole? (if negative then -(n : Int) else n)

/-- Whether a character stands among the digits of a number. -/
def isDigitOrGap (c : Char) : Bool :=
  c.isDigit || c == '_'

/-- The exponent of a number from its mark on. -/
def exponent? : List Char → Option Int
  | c :: rest =>
    if c = 'e' ∨ c = 'E' then
      let (negative, ds) := Decimal.splitSign rest
      (digits? Char.isDigit ds).map fun ds =>
        let n : Int := Decimal.digitsValue ds
        if negative then -n else n
    else none
  | [] => none

/-- A finite number as a document. Too large a number is an error when it is
positive and nothing when it is negative. -/
def ofFloat? (x : Float) : Option Json :=
  if x.isFinite then some (.float x)
  else if x < 0.0 then some .null
  else none

def float? (s : List Char) : Option Json := do
  let (negative, s) := Decimal.splitSign s
  let whole ← wholeDigits? (s.takeWhile isDigitOrGap)
  match s.dropWhile isDigitOrGap with
  | '.' :: rest =>
    let fraction ← digits? Char.isDigit (rest.takeWhile isDigitOrGap)
    let rest := rest.dropWhile isDigitOrGap
    let e ← if rest.isEmpty then some 0 else exponent? rest
    ofFloat? (Decimal.nearest negative (whole ++ fraction) (e - fraction.length))
  | rest =>
    let e ← exponent? rest
    ofFloat? (Decimal.nearest negative whole e)

/-- The words for truth values and for numbers that are not finite. -/
def word? (s : List Char) : Option Json :=
  match String.ofList s with
  | "true" => some (.bool true)
  | "false" => some (.bool false)
  | "inf" | "+inf" | "-inf" | "nan" | "+nan" | "-nan" => some .null
  | _ => none

/-- A number of exactly so many digits at the start of a text. -/
def field? (width : Nat) (s : List Char) : Option (Nat × List Char) :=
  let ds := s.take width
  if ds.length = width ∧ ds.all Char.isDigit then some (Decimal.digitsValue ds, s.drop width)
  else none

/-- Takes a character off the start of a text. -/
def mark? (c : Char) : List Char → Option (List Char)
  | d :: rest => if c = d then some rest else none
  | [] => none

/-- The date at the start of a text, written out, and what follows it. The year
zero is allowed. -/
def date? (s : List Char) : Option (String × List Char) := do
  let (year, s) ← field? 4 s
  let (month, s) ← field? 2 (← mark? '-' s)
  let (day, s) ← field? 2 (← mark? '-' s)
  if 1 ≤ month ∧ month ≤ 12 ∧ 1 ≤ day ∧ day ≤ daysInMonth year month then
    some (Date.padded 4 year ++ "-" ++ Date.padded 2 month ++ "-" ++ Date.padded 2 day, s)
  else none

/-- A fraction of a second in at most nine digits, without zeros at its end. -/
def fractionText (ds : List Char) : String :=
  let kept := ((ds.take 9).reverse.dropWhile (· == '0')).reverse
  if kept.isEmpty then "" else "." ++ String.ofList kept

/-- The time of day at the start of a text, written out, and what follows it. A
leap second is allowed. -/
def time? (s : List Char) : Option (String × List Char) := do
  let (hour, s) ← field? 2 s
  let (minute, s) ← field? 2 (← mark? ':' s)
  let (second, s) ← field? 2 (← mark? ':' s)
  if hour ≤ 23 ∧ minute ≤ 59 ∧ second ≤ 60 then
    let text := Date.padded 2 hour ++ ":" ++ Date.padded 2 minute ++ ":" ++ Date.padded 2 second
    match s with
    | '.' :: rest =>
      let ds := rest.takeWhile Char.isDigit
      if ds.isEmpty then none
      else some (text ++ fractionText ds, rest.dropWhile Char.isDigit)
    | s => some (text, s)
  else none

/-- The distance from universal time that a text is, written out. -/
def zone? : List Char → Option String
  | [] => some ""
  | ['Z'] => some "Z"
  | ['z'] => some "Z"
  | sign :: s => do
    let (hour, s) ← field? 2 s
    let (minute, s) ← field? 2 (← mark? ':' s)
    if (sign = '+' ∨ sign = '-') ∧ hour ≤ 23 ∧ minute ≤ 59 ∧ s.isEmpty then
      let sign := if sign = '-' ∧ (hour ≠ 0 ∨ minute ≠ 0) then "-" else "+"
      some (sign ++ Date.padded 2 hour ++ ":" ++ Date.padded 2 minute)
    else none

/-- The name of the member that holds the text of a date or a time. -/
def momentMember : String := "$__toml_private_datetime"

/-- A date, a time of day, or both with an optional distance from universal time. -/
def moment? (s : List Char) : Option Json := do
  let text ← match date? s with
    | some (date, []) => some date
    | some (date, c :: rest) =>
      if c = 'T' ∨ c = 't' ∨ c = ' ' then do
        let (time, rest) ← time? rest
        some (date ++ "T" ++ time ++ (← zone? rest))
      else none
    | none =>
      match time? s with
      | some (time, []) => some time
      | _ => none
  some (.object [(momentMember, .str text)])

/-- Whether a character may stand in a single value that is not a string. -/
def isScalarChar (c : Char) : Bool :=
  c.isAlphanum || c == '+' || c == '-' || c == '_' || c == '.' || c == ':'

def startsTime : List Char → Bool
  | a :: b :: ':' :: _ => a.isDigit && b.isDigit
  | _ => false

/-- The characters of the single value at the start of a text, and what follows
them. Between a date and a time there may be a blank. -/
def spanScalar (s : List Char) : List Char × List Char :=
  let first := s.takeWhile isScalarChar
  match s.dropWhile isScalarChar with
  | ' ' :: rest =>
    match date? first with
    | some (_, []) =>
      if startsTime rest then
        (first ++ ' ' :: rest.takeWhile isScalarChar, rest.dropWhile isScalarChar)
      else (first, ' ' :: rest)
    | _ => (first, ' ' :: rest)
  | rest => (first, rest)

/-- The single value at the start of a text, and what follows it. -/
def scalar? (s : List Char) : Option (Json × List Char) :=
  let (chars, rest) := spanScalar s
  (((word? chars).or (moment? chars)).or ((float? chars).or (integer? chars))).map fun j =>
    (j, rest)

end FilterLang.Toml
