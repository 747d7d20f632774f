import FilterLang.Text.Padding
/-!
The strings of TOML, on one line or over several, with or without escapes.

Every reader starts after the opening quotes and returns what follows the closing
ones; `acc` is what has been read, in reverse.
-/

namespace FilterLang.Toml

/-- Whether a character may stand for itself: no control character but the
tabulator. -/
def isPlain (c : Char) : Bool :=
  c == '\t' || (0x20 ≤ c.toNat && c.toNat ≠ 0x7F)

/-- Whether a character is a blank within a line. -/
def isBlank (c : Char) : Bool :=
  c == ' ' || c == '\t'

/-- Takes the end of a line off the start of a text. -/
def newline? : List Char → Option (List Char)
  | '\n' :: rest => some rest
  | '\r' :: '\n' :: rest => some rest
  | _ => none

/-- The character with a code of exactly so many hexadecimal digits. -/
def coded? (width : Nat) (s : List Char) : Option Char := do
  let ds ← (s.take width).mapM Text.hexValue?
  let n := ds.foldl (fun n d => n * 16 + d) 0
  if ds.length = width ∧ (n < 0xD800 ∨ (0xDFFF < n ∧ n ≤ 0x10FFFF)) then some (Char.ofNat n)
  else none

/-- The character of an escape after its backslash, and how long the escape is. -/
def escape? : List Char → Option (Char × Nat)
  | [] => none
  | c :: rest =>
    if c = 'u' then (coded? 4 rest).map fun d => (d, 5)
    else if c = 'U' then (coded? 8 rest).map fun d => (d, 9)
    else if c = '"' ∨ c = '\\' then some (c, 1)
    else if c = 'b' then some (Char.ofNat 8, 1)
    else if c = 't' then some ('\t', 1)
    else if c = 'n' then some ('\n', 1)
    else if c = 'f' then some (Char.ofNat 12, 1)
    else if c = 'r' then some ('\r', 1)
    else none

/-- A string with escapes on one line. -/
def readBasic (acc s : List Char) : Option (String × List Char) :=
  match s with
  | [] => none
  | c :: rest =>
    if c = '"' then some (String.ofList acc.reverse, rest)
    else if c = '\\' then
      match escape? rest with
      | some (d, n) => readBasic (d :: acc) (rest.drop n)
      | none => none
    else if isPlain c then readBasic (c :: acc) rest
    else none
termination_by s.length
decreasing_by all_goals simp +arith

/-- A string without escapes on one line. -/
def readLiteral (acc : List Char) : List Char → Option (String × List Char)
  | [] => none
  | c :: rest =>
    if c = '\'' then some (String.ofList acc.reverse, rest)
    else if isPlain c then readLiteral (c :: acc) rest
    else none

/-- The end of a string over several lines: three quotes, and before them up to
two that belong to the string. -/
def closing? (quote : Char) (s : List Char) : Option (List Char × List Char) :=
  let n := (s.takeWhile (· == quote)).length
  if n < 3 then none
  else
    let own := min (n - 3) 2
    some (List.replicate own quote, s.drop (own + 3))

/-- The text after a backslash at the end of a line: blanks and ends of lines are
passed over. -/
def continued? (s : List Char) : Option (List Char) :=
  (newline? (s.dropWhile isBlank)).map
    (·.dropWhile fun c => isBlank c || c == '\n' || c == '\r')

/-- The text after an end of line that directly follows the opening quotes. -/
def afterOpening (s : List Char) : List Char :=
  (newline? s).getD s

/-- A string with escapes over several lines. -/
def readLongBasic : Nat → List Char → List Char → Option (String × List Char)
  | 0, _, _ => none
  | _, _, [] => none
  | fuel + 1, acc, c :: rest =>
    match closing? '"' (c :: rest) with
    | some (own, after) => some (String.ofList (acc.reverse ++ own), after)
    | none =>
      if c = '\\' then
        match continued? rest, escape? rest with
        | some after, _ => readLongBasic fuel acc after
        | none, some (d, n) => readLongBasic fuel (d :: acc) (rest.drop n)
        | none, none => none
      else
        match newline? (c :: rest) with
        | some after => readLongBasic fuel ('\n' :: acc) after
        | none => if isPlain c then readLongBasic fuel (c :: acc) rest else none

/-- A string without escapes over several lines. -/
def readLongLiteral : Nat → List Char → List Char → Option (String × List Char)
  | 0, _, _ => none
  | _, _, [] => none
  | fuel + 1, acc, c :: rest =>
    match closing? '\'' (c :: rest) with
    | some (own, after) => some (String.ofList (acc.reverse ++ own), after)
    | none =>
      match newline? (c :: rest) with
      | some after => readLongLiteral fuel ('\n' :: acc) after
      | none => if isPlain c then readLongLiteral fuel (c :: acc) rest else none

/-- The string at the start of a text, its opening quotes included. -/
def string? : List Char → Option (String × List Char)
  | '"' :: '"' :: '"' :: rest => readLongBasic (rest.length + 1) [] (afterOpening rest)
  | '"' :: rest => readBasic [] rest
  | '\'' :: '\'' :: '\'' :: rest => readLongLiteral (rest.length + 1) [] (afterOpening rest)
  | '\'' :: rest => readLiteral [] rest
  | _ => none

end FilterLang.Toml
