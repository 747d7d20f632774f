import FilterLang.Text.Padding
/-!
The escapes of string literals.

A literal is decoded from left to right. An escape that is not known keeps its
backslash. The escapes `u`, `U` and `N` are known only in unicode literals.
Positions in errors count the characters of the literal between its quotes.
-/

namespace FilterLang

/-- An escape that cannot be decoded. -/
inductive EscapeError where
  | truncated (escape : Char) (first last : Nat)
  | illegalCodePoint (first last : Nat)
  | invalidHex
  | namedEscape
deriving DecidableEq

def EscapeError.message : EscapeError → String
  | truncated escape first last =>
    "(unicode error) 'unicodeescape' codec can't decode bytes in position " ++ toString first ++
      "-" ++ toString last ++ ": truncated \\" ++ String.singleton escape ++ " escape"
  | illegalCodePoint first last =>
    "(unicode error) 'unicodeescape' codec can't decode bytes in position " ++ toString first ++
      "-" ++ toString last ++ ": illegal Unicode character"
  | invalidHex => "invalid \\x escape"
  | namedEscape => "(unicode error) \\N escapes not supported"

namespace Escape

def simple? (c : Char) : Option Char :=
  match c with
  | '\\' => some '\\'
  | '"' => some '"'
  | '\'' => some '\''
  | 'a' => some (Char.ofNat 7)
  | 'b' => some (Char.ofNat 8)
  | 'f' => some (Char.ofNat 12)
  | 'n' => some '\n'
  | 'r' => some '\r'
  | 't' => some '\t'
  | 'v' => some (Char.ofNat 11)
  | _ => none

/-- The value of exactly `width` hexadecimal digits at the start of a text. -/
def hex? (width : Nat) (s : List Char) : Option Nat :=
  let digits := s.take width
  if digits.length < width then none
  else (digits.mapM Text.hexValue?).map (·.foldl (fun n d => n * 16 + d) 0)

/-- Whether a number is the code of a character. -/
def isCodePoint (n : Nat) : Bool :=
  n < 0xD800 || (0xDFFF < n && n < 0x110000)

/-- The digits from 0 to 7. -/
def isOctal (c : Char) : Bool :=
  '0' ≤ c && c ≤ '7'

/-- A code point escape of `width` digits: the character, and the number of
characters used after the backslash. -/
def codePoint (escape : Char) (width total pos : Nat) (after : List Char) :
    Except EscapeError (List Char × Nat) :=
  match hex? width after with
  | none => .error (.truncated escape pos (min (pos + 1 + width) (total - 1)))
  | some n =>
    if isCodePoint n then .ok ([Char.ofNat n], 1 + width)
    else .error (.illegalCodePoint pos (pos + 1 + width))

/-- The escape whose letter is `e`, with the text `after` it: the characters it
stands for, and how many characters it takes after the backslash. The backslash
stands at `pos` in a literal of `total` characters. -/
def one (unicode : Bool) (total pos : Nat) (e : Char) (after : List Char) :
    Except EscapeError (List Char × Nat) :=
  match simple? e with
  | some c => .ok ([c], 1)
  | none =>
    if e = '\n' then .ok ([], 1)
    else if e = 'N' && unicode then .error .namedEscape
    else if e = 'u' && unicode then codePoint e 4 total pos after
    else if e = 'U' && unicode then codePoint e 8 total pos after
    else if e = 'x' then
      match hex? 2 after with
      | some n => .ok ([Char.ofNat n], 3)
      | none =>
        if unicode then .error (.truncated e pos (min (pos + 3) (total - 1)))
        else .error .invalidHex
    else if isOctal e then
      let digits := ((e :: after).take 3).takeWhile isOctal
      .ok ([Char.ofNat (digits.foldl (fun n d => n * 8 + (d.toNat - 48)) 0)], digits.length)
    else .ok (['\\'], 0)

/-- Decodes the rest of a literal that starts at `pos`. -/
def decodeFrom (unicode : Bool) (total pos : Nat) (s : List Char) :
    Except EscapeError (List Char) :=
  match s with
  | [] => .ok []
  | '\\' :: e :: after => do
    let (cs, used) ← one unicode total pos e after
    let rest ← decodeFrom unicode total (pos + 1 + used) ((e :: after).drop used)
    return cs ++ rest
  | c :: rest => do
    let cs ← decodeFrom unicode total (pos + 1) rest
    return c :: cs
termination_by s.length
decreasing_by
  · simp only [List.length_drop, List.length_cons]; omega
  · simp

end Escape

/-- The text that a string literal stands for. -/
def decodeLiteral (raw : String) (unicode : Bool) : Except EscapeError String := do
  let cs ← Escape.decodeFrom unicode raw.length 0 raw.toList
  return String.ofList cs

end FilterLang
