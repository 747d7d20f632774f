import FilterLang.Toml.Node
import FilterLang.Toml.Scalar
import FilterLang.Toml.Text
/-!
Documents read from TOML text.

A text is a sequence of lines, each with a heading, with a key and its value, or
with nothing, and with an optional comment at the end. The value of a key may go
over several lines. The document is an object.
-/

namespace FilterLang.Toml

/-- How many parts a key may have, and how deep arrays and tables may be nested in
a value. -/
def maxDepth : Nat := 79

def skipBlanks (s : List Char) : List Char :=
  s.dropWhile isBlank

/-- Without a comment at the start, if there is one. -/
def skipComment : List Char → List Char
  | '#' :: rest => rest.dropWhile isPlain
  | s => s

/-- Without the blanks, comments and ends of lines at the start. A comment has to
end with its line. -/
def skipLines : Nat → List Char → List Char
  | 0, s => s
  | fuel + 1, s =>
    let s := skipBlanks s
    match newline? (skipComment s) with
    | some rest => skipLines fuel rest
    | none => s

/-- Whether a character may stand in a key without quotes. -/
def isBare (c : Char) : Bool :=
  c.isAlphanum || c == '_' || c == '-'

/-- One part of a key. -/
def simpleKey? (s : List Char) : Option (String × List Char) :=
  match s with
  | '"' :: rest => readBasic [] rest
  | '\'' :: rest => readLiteral [] rest
  | s =>
    let name := s.takeWhile isBare
    if name.isEmpty then none else some (String.ofList name, s.dropWhile isBare)

/-- The parts of a key, and what follows them and the blanks after them. -/
def key? : Nat → List Char → Option (List String × List Char)
  | 0, _ => none
  | parts + 1, s => do
    let (name, rest) ← simpleKey? (skipBlanks s)
    match skipBlanks rest with
    | '.' :: rest =>
      let (names, rest) ← key? parts rest
      some (name :: names, rest)
    | rest => some ([name], rest)

/-- The parts of a key before its last, and the last. -/
def splitLast : List String → List String × String
  | [] => ([], "")
  | [k] => ([], k)
  | k :: rest =>
    let (path, key) := splitLast rest
    (k :: path, key)

mutual

/-- The value at the start of a text. `depth` is how many levels of arrays and
tables may still be opened. -/
def value? : Nat → Nat → List Char → Option (Json × List Char)
  | 0, _, _ => none
  | fuel + 1, depth, s =>
    match s with
    | '"' :: _ => (string? s).map fun (t, r) => (.str t, r)
    | '\'' :: _ => (string? s).map fun (t, r) => (.str t, r)
    | '[' :: rest =>
      if depth = 0 then none
      else (items? fuel (depth - 1) [] rest).map fun (js, r) => (.array js, r)
    | '\x7b' :: rest =>
      if depth = 0 then none
      else
        match skipBlanks rest with
        | '\x7d' :: rest => some (.object [], rest)
        | rest =>
          (pairs? fuel (depth - 1) [] rest).map fun (ns, r) => (.object (Node.members ns), r)
    | s => scalar? s

/-- The items of an array up to its closing bracket; a comma may follow the
last. -/
def items? : Nat → Nat → List Json → List Char → Option (List Json × List Char)
  | 0, _, _, _ => none
  | fuel + 1, depth, acc, s =>
    match skipLines s.length s with
    | ']' :: rest => some (acc.reverse, rest)
    | s => do
      let (j, rest) ← value? fuel depth s
      match skipLines rest.length rest with
      | ',' :: rest => items? fuel depth (j :: acc) rest
      | ']' :: rest => some ((j :: acc).reverse, rest)
      | _ => none

/-- The keys and values of a table on one line up to its closing brace. -/
def pairs? : Nat → Nat → Table Node → List Char → Option (Table Node × List Char)
  | 0, _, _, _ => none
  | fuel + 1, depth, acc, s => do
    let (names, rest) ← key? maxDepth s
    match rest with
    | '=' :: rest =>
      let (j, rest) ← value? fuel depth (skipBlanks rest)
      let (path, key) := splitLast names
      let acc ← setKey acc path key j
      match skipBlanks rest with
      | ',' :: rest => pairs? fuel depth acc rest
      | '\x7d' :: rest => some (acc, rest)
      | _ => none
    | _ => none

end

/-- Reads a heading, or a key and its value, at the start of a line. -/
def entry? (d : Draft) (s : List Char) : Option (Draft × List Char) :=
  match s with
  | '[' :: '[' :: rest => do
    let (names, rest) ← key? maxDepth rest
    let (path, key) := splitLast names
    match rest with
    | ']' :: ']' :: rest => return (← d.startItem path key, rest)
    | _ => none
  | '[' :: rest => do
    let (names, rest) ← key? maxDepth rest
    let (path, key) := splitLast names
    match rest with
    | ']' :: rest => return (← d.startTable path key, rest)
    | _ => none
  | s => do
    let (names, rest) ← key? maxDepth s
    let (path, key) := splitLast names
    match rest with
    | '=' :: rest =>
      let (j, rest) ← value? (2 * rest.length + 2) maxDepth (skipBlanks rest)
      return (← d.set path key j, rest)
    | _ => none

def lines? : Nat → Draft → List Char → Option Draft
  | 0, _, _ => none
  | fuel + 1, d, s =>
    match skipLines s.length s with
    | [] => some d
    | '#' :: rest => if (rest.dropWhile isPlain).isEmpty then some d else none
    | s => do
      let (d, rest) ← entry? d s
      let rest := skipComment (skipBlanks rest)
      match newline? rest with
      | some rest => lines? fuel d rest
      | none => if rest.isEmpty then some d else none

/-- The members of the document that a text is, if it is one. -/
def read? (text : String) : Option (Table Json) := do
  let s := text.toList
  let s := if s.head? = some (Char.ofNat 0xFEFF) then s.tail else s
  let d ← lines? (s.length + 1) {} s
  return Node.members (← d.close)

end FilterLang.Toml
