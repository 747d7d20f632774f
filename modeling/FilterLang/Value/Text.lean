import FilterLang.Text.Quoted
import FilterLang.Value.Temporal
/-!
Values as text: the form that shows what a value is, and the form meant for
readers, which differs for strings and for instances that say so.
-/

namespace FilterLang

def commaSeparated (parts : List String) : String :=
  String.intercalate ", " parts

/-- A tuple from the texts of its items; a single item is followed by a comma. -/
def tupleText (parts : List String) : String :=
  match parts with
  | [p] => "(" ++ p ++ ",)"
  | parts => "(" ++ commaSeparated parts ++ ")"

def listText (parts : List String) : String :=
  "[" ++ commaSeparated parts ++ "]"

def dictText (parts : List String) : String :=
  "\x7b" ++ commaSeparated parts ++ "\x7d"

/-- A string as the language writes it. -/
def quotedText (s : String) : String :=
  String.ofList (Text.quoted s.toList)

namespace Json

mutual

/-- A document as the language writes the value that it is. -/
def repr : Json → String
  | .null => "None"
  | .bool b => if b then "True" else "False"
  | .int n => Decimal.plain (Number.ofInt n)
  | .float x => Decimal.plain x
  | .str s => quotedText s
  | .array items => listText (reprItems items)
  | .object members => dictText (reprMembers members)

def reprItems : List Json → List String
  | [] => []
  | j :: rest => j.repr :: reprItems rest

def reprMembers : List (String × Json) → List String
  | [] => []
  | m :: rest => reprMember m :: reprMembers rest

def reprMember : String × Json → String
  | (name, j) => quotedText name ++ ": " ++ j.repr

end

end Json

namespace Value

/-- The text of an instance: what its `__repr__` method says, or its class. -/
def reprInstance (host : Host) (site : Identity) (v : Value) : Outcome String :=
  match v.special? host "__repr__" with
  | some m => do
    match ← m.call host site v [] with
    | .str s => return s
    | other => throw (.type (.reprResult other.typeName))
  | none => .ok ("<" ++ v.typeName ++ " object>")

mutual

/-- The text that shows what a value is. -/
def repr (host : Host) (site : Identity) : Value → Outcome String
  | null => .ok "None"
  | notImplemented => .ok "NotImplemented"
  | bool b => .ok (if b then "True" else "False")
  | float x => .ok (Decimal.plain x.float)
  | str s => .ok (quotedText s)
  | tuple _ items => do return tupleText (← reprItems host site items)
  | list _ items => do return listText (← reprItems host site items)
  | dict _ ⟨entries, _⟩ => do return dictText (← reprEntries host site entries)
  | nativeList _ items => .ok (listText (Json.reprItems items))
  | nativeDict _ members => .ok (dictText (Json.reprMembers members))
  | function f => .ok ("<function " ++ f.name ++ ">")
  | lambda .. => .ok "<function <lambda>>"
  | method _ receiver m =>
    .ok ("<bound method " ++ receiver.typeName ++ "." ++ m.name ++ ">")
  | cls c => .ok ("<type '" ++ c.name ++ "'>")
  | temporal id t => reprInstance host site (temporal id t)
  | object id c fields => reprInstance host site (object id c fields)

def reprItems (host : Host) (site : Identity) : List Value → Outcome (List String)
  | [] => .ok []
  | v :: rest => do
    let t ← repr host site v
    return t :: (← reprItems host site rest)

def reprEntries (host : Host) (site : Identity) : List (Value × Value) → Outcome (List String)
  | [] => .ok []
  | e :: rest => do
    let t ← reprEntry host site e
    return t :: (← reprEntries host site rest)

def reprEntry (host : Host) (site : Identity) : Value × Value → Outcome String
  | (k, v) => do
    let kt ← repr host site k
    return kt ++ ": " ++ (← repr host site v)

end

/-- The text of a value for readers. -/
def toText (host : Host) (site : Identity) (v : Value) : Outcome String :=
  match v with
  | str s => .ok s
  | v =>
    match v.special? host "__str__" with
    | some m => do
      match ← m.call host site v [] with
      | .str s => return s
      | other => throw (.type (.strResult other.typeName))
    | none => v.repr host site

end Value

end FilterLang
