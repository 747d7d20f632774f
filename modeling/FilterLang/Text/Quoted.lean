import FilterLang.Text.Invisible
import FilterLang.Text.Padding
/-!
Texts between quotes.

`quoted` is how the language writes a string: in single quotes, or in double
quotes when the text holds a single quote and no double one. `debugQuoted` is how
an error message shows a piece of text: always in double quotes, with everything
that has no glyph of its own written as an escape.
-/

namespace FilterLang.Text

/-- The quote that a written string gets. -/
def quoteFor (s : List Char) : Char :=
  if s.contains '\'' && !s.contains '"' then '"' else '\''

/-- One character inside a string written with the quote `q`. -/
def quoteChar (q c : Char) : List Char :=
  if c = '\\' then ['\\', '\\']
  else if c = '\n' then ['\\', 'n']
  else if c = '\r' then ['\\', 'r']
  else if c = '\t' then ['\\', 't']
  else if c = q then ['\\', c]
  else if c.toNat < 0x20 ∨ c.toNat = 0x7F then '\\' :: 'x' :: hexPair c.toNat
  else [c]

/-- A string as the language writes it. -/
def quoted (s : List Char) : List Char :=
  let q := quoteFor s
  q :: (s.flatMap (quoteChar q) ++ [q])

/-- One character between debugging quotes. -/
def debugChar (c : Char) : List Char :=
  if c = Char.ofNat 0 then ['\\', '0']
  else if c = '\t' then ['\\', 't']
  else if c = '\r' then ['\\', 'r']
  else if c = '\n' then ['\\', 'n']
  else if c = '"' then ['\\', '"']
  else if c = '\\' then ['\\', '\\']
  else if isInvisible c then ['\\', 'u', '\x7b'] ++ hexDigits c.toNat ++ ['\x7d']
  else [c]

/-- A piece of text as an error message shows it. -/
def debugQuoted (s : String) : String :=
  String.ofList ('"' :: (s.toList.flatMap debugChar ++ ['"']))

/-- A list of pieces of text as an error message shows it. -/
def debugList (items : List String) : String :=
  "[" ++ String.intercalate ", " (items.map debugQuoted) ++ "]"

end FilterLang.Text
