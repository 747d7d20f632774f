import FilterLang.Table
/-!
Native documents.

A document is what the embedding program hands over and takes back. Whole numbers
and floating point numbers are kept apart, because a document that is passed
through unchanged keeps the kind of number it came with. The members of an object
are a table, so they stand in the order of their names.
-/

namespace FilterLang

/-- A native document. -/
inductive Json where
  | null
  | bool (b : Bool)
  | int (n : Int)
  | float (x : Float)
  | str (s : String)
  | array (items : List Json)
  | object (members : List (String × Json))

namespace Json

/-- The member of an object under a name. Other documents have no members. -/
def member? (j : Json) (name : String) : Option Json :=
  match j with
  | .object members => Table.get? members name
  | _ => none

def text? : Json → Option String
  | .str s => some s
  | _ => none

/-- The kind of a document, in the words of the language. -/
def kindName : Json → String
  | .null => "None"
  | .bool _ => "bool"
  | .int _ | .float _ => "float"
  | .str _ => "str"
  | .array _ => "list"
  | .object _ => "dict"

end Json

end FilterLang
