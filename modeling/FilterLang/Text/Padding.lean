/-!
Digits in texts: filled up with zeros, and hexadecimal.

Hexadecimal digits are read in either case and written in lower case.
-/

namespace FilterLang.Text

/-- The text with zeros before it, up to `size` characters. -/
def padLeft (s : String) (size : Nat) : String :=
  String.ofList (List.replicate (size - s.length) '0') ++ s

/-- The text with zeros after it, up to `size` characters. -/
def padRight (s : String) (size : Nat) : String :=
  s ++ String.ofList (List.replicate (size - s.length) '0')

def hexDigits (n : Nat) : List Char :=
  Nat.toDigits 16 n

def hexPair (n : Nat) : List Char :=
  if n < 16 then '0' :: hexDigits n else hexDigits n

def hexValue? (c : Char) : Option Nat :=
  let n := c.toNat
  if 48 ≤ n ∧ n ≤ 57 then some (n - 48)
  else if 97 ≤ n ∧ n ≤ 102 then some (n - 87)
  else if 65 ≤ n ∧ n ≤ 70 then some (n - 55)
  else none

end FilterLang.Text
