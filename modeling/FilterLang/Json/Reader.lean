import FilterLang.Json.Number
import FilterLang.Text.Padding
/-!
Documents read from JSON text.

The reader takes the text as a list of characters and returns what follows the
piece it has read. Arrays and objects may be nested to a fixed depth. Of two
members with one name the later stays.
-/

namespace FilterLang.Json

/-- Without the blanks that JSON allows between its marks. -/
def skipBlanks (s : List Char) : List Char :=
  s.dropWhile fun c => c == ' ' || c == '\n' || c == '\t' || c == '\r'

def readHex4 : List Char → Option (Nat × List Char)
  | a :: b :: c :: d :: rest => do
    let w ← Text.hexValue? a
    let x ← Text.hexValue? b
    let y ← Text.hexValue? c
    let z ← Text.hexValue? d
    some (((w * 16 + x) * 16 + y) * 16 + z, rest)
  | _ => none

/-- The character of a four-digit escape, which may need a second escape for the
other half of a surrogate pair. -/
def readUnicode (s : List Char) : Option (Char × List Char) := do
  let (n, rest) ← readHex4 s
  if 0xDC00 ≤ n ∧ n ≤ 0xDFFF then none
  else if 0xD800 ≤ n ∧ n ≤ 0xDBFF then
    match rest with
    | '\\' :: 'u' :: rest =>
      let (m, rest) ← readHex4 rest
      if 0xDC00 ≤ m ∧ m ≤ 0xDFFF then
        some (Char.ofNat (0x10000 + (n - 0xD800) * 0x400 + (m - 0xDC00)), rest)
      else none
    | _ => none
  else some (Char.ofNat n, rest)

/-- The character that a one-letter escape stands for. -/
def simpleEscape? (c : Char) : Option Char :=
  if c = '"' ∨ c = '\\' ∨ c = '/' then some c
  else if c = 'b' then some (Char.ofNat 8)
  else if c = 'f' then some (Char.ofNat 12)
  else if c = 'n' then some '\n'
  else if c = 'r' then some '\r'
  else if c = 't' then some '\t'
  else none

/-- The rest of a string after its opening quote; `acc` is what has been read, in
reverse. -/
def readString : Nat → List Char → List Char → Option (String × List Char)
  | 0, _, _ => none
  | _, _, [] => none
  | fuel + 1, acc, c :: rest =>
    if c = '"' then some (String.ofList acc.reverse, rest)
    else if c = '\\' then
      match rest with
      | 'u' :: rest => do
        let (d, rest) ← readUnicode rest
        readString fuel (d :: acc) rest
      | e :: rest => do
        let d ← simpleEscape? e
        readString fuel (d :: acc) rest
      | [] => none
    else if c.toNat < 0x20 then none
    else readString fuel (c :: acc) rest

/-- Takes the characters of a word off the start of a text. -/
def expectWord (word : String) (s : List Char) : Option (List Char) :=
  if word.toList.isPrefixOf s then some (s.drop word.length) else none

mutual

/-- The document at the start of a text. `depth` is how many levels of arrays and
objects may still be opened. -/
def readValue : Nat → Nat → List Char → Option (Json × List Char)
  | 0, _, _ => none
  | fuel + 1, depth, s =>
    match skipBlanks s with
    | [] => none
    | c :: rest =>
      if c = '"' then (readString rest.length.succ [] rest).map fun (t, r) => (.str t, r)
      else if c = '[' then
        if depth = 0 then none
        else match skipBlanks rest with
          | ']' :: rest => some (.array [], rest)
          | _ => (readItems fuel (depth - 1) [] rest).map fun (js, r) => (.array js, r)
      else if c = '\x7b' then
        if depth = 0 then none
        else match skipBlanks rest with
          | '\x7d' :: rest => some (.object [], rest)
          | _ => (readMembers fuel (depth - 1) [] rest).map fun (ms, r) => (.object ms, r)
      else if c = 'n' then (expectWord "null" (c :: rest)).map fun r => (.null, r)
      else if c = 't' then (expectWord "true" (c :: rest)).map fun r => (.bool true, r)
      else if c = 'f' then (expectWord "false" (c :: rest)).map fun r => (.bool false, r)
      else readNumber (c :: rest)

/-- The items of an array up to its closing bracket. -/
def readItems : Nat → Nat → List Json → List Char → Option (List Json × List Char)
  | 0, _, _, _ => none
  | fuel + 1, depth, acc, s => do
    let (j, rest) ← readValue fuel depth s
    match skipBlanks rest with
    | ',' :: rest => readItems fuel depth (j :: acc) rest
    | ']' :: rest => some ((j :: acc).reverse, rest)
    | _ => none

/-- The members of an object up to its closing brace. -/
def readMembers : Nat → Nat → Table Json → List Char → Option (Table Json × List Char)
  | 0, _, _, _ => none
  | fuel + 1, depth, acc, s =>
    match skipBlanks s with
    | '"' :: rest => do
      let (name, rest) ← readString rest.length.succ [] rest
      match skipBlanks rest with
      | ':' :: rest =>
        let (j, rest) ← readValue fuel depth rest
        match skipBlanks rest with
        | ',' :: rest => readMembers fuel depth (Table.insert acc name j) rest
        | '\x7d' :: rest => some (Table.insert acc name j, rest)
        | _ => none
      | _ => none
    | _ => none

end

/-- How many levels of arrays and objects a document may have. -/
def maxDepth : Nat := 127

def read? (text : String) : Option Json :=
  match readValue (2 * text.length + 2) maxDepth text.toList with
  | some (j, rest) => if (skipBlanks rest).isEmpty then some j else none
  | none => none

end FilterLang.Json
