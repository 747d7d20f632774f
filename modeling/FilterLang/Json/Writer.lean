import FilterLang.Json.Basic
import FilterLang.Decimal.Layout
import FilterLang.Text.Quoted
/-!
Documents as JSON text: on one line without blanks, or spread over lines with two
blanks for each level.
-/

namespace FilterLang.Json

def escapeChar (c : Char) : List Char :=
  if c = '"' then ['\\', '"']
  else if c = '\\' then ['\\', '\\']
  else if c = '\n' then ['\\', 'n']
  else if c = '\r' then ['\\', 'r']
  else if c = '\t' then ['\\', 't']
  else if c.toNat = 8 then ['\\', 'b']
  else if c.toNat = 12 then ['\\', 'f']
  else if c.toNat < 0x20 then ['\\', 'u', '0', '0'] ++ Text.hexPair c.toNat
  else [c]

def quote (s : String) : String :=
  String.ofList ('"' :: (s.toList.flatMap escapeChar ++ ['"']))

mutual

/-- A document on one line. -/
def compact : Json → String
  | .null => "null"
  | .bool b => if b then "true" else "false"
  | .int n => toString n
  | .float x => Decimal.json x
  | .str s => quote s
  | .array items => "[" ++ String.intercalate "," (compactItems items) ++ "]"
  | .object members =>
    "\x7b" ++ String.intercalate "," (compactMembers members) ++ "\x7d"

def compactItems : List Json → List String
  | [] => []
  | j :: rest => j.compact :: compactItems rest

def compactMembers : List (String × Json) → List String
  | [] => []
  | m :: rest => compactMember m :: compactMembers rest

def compactMember : String × Json → String
  | (name, j) => quote name ++ ":" ++ j.compact

end

/-- A line break followed by the blanks of a level. -/
def newline (level : Nat) : String :=
  "\n" ++ String.ofList (List.replicate (2 * level) ' ')

/-- Items between brackets, one to a line. -/
def block (opening closing : String) (level : Nat) (items : List String) : String :=
  if items.isEmpty then opening ++ closing
  else
    opening ++ newline (level + 1) ++ String.intercalate ("," ++ newline (level + 1)) items ++
      newline level ++ closing

mutual

/-- A document spread over lines, starting at a level. -/
def prettyAt (level : Nat) : Json → String
  | .array items => block "[" "]" level (prettyItems (level + 1) items)
  | .object members => block "\x7b" "\x7d" level (prettyMembers (level + 1) members)
  | .null => "null"
  | .bool b => if b then "true" else "false"
  | .int n => toString n
  | .float x => Decimal.json x
  | .str s => quote s

/-- The items of an array, each spread over lines. -/
def prettyItems (level : Nat) : List Json → List String
  | [] => []
  | j :: rest => prettyAt level j :: prettyItems level rest

/-- The members of an object, each spread over lines. -/
def prettyMembers (level : Nat) : List (String × Json) → List String
  | [] => []
  | m :: rest => prettyMember level m :: prettyMembers level rest

def prettyMember (level : Nat) : String × Json → String
  | (name, j) => quote name ++ ": " ++ prettyAt level j

end

def pretty (j : Json) : String :=
  prettyAt 0 j

end FilterLang.Json
