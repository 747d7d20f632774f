import FilterLang.Text.Blank
import FilterLang.Text.Case
import FilterLang.Text.Split
import FilterLang.Value.Items
/-!
The methods of strings.
-/

namespace FilterLang.StrMethod

def receiver (this : Value) : Outcome (List Char) :=
  match this with
  | .str s => .ok s.toList
  | v => .error (.type (.receiver "str" v.typeName))

def textArg (what : String) (v : Value) : Outcome (List Char) :=
  match v with
  | .str s => .ok s.toList
  | v => .error (.type (.notText what v.typeName))

def ofChars (s : List Char) : Value :=
  .str (String.ofList s)

/-- Strips blanks, or the characters of the argument. -/
def stripWith (trim : (Char → Bool) → List Char → List Char) (this : Value) (args : Bound) :
    Outcome Value := do
  let s ← receiver this
  match args.get "chars" with
  | .null => return ofChars (trim Text.isBlank s)
  | chars =>
    let set ← textArg "strip arg" chars
    return ofChars (trim set.contains s)

/-- Whether one of several affixes fits. An affix that is no string is a fault
when it is reached. -/
def anyAffix (test : List Char → Bool) : List Value → Outcome Bool
  | [] => .ok false
  | v :: rest => do
    if test (← textArg "affix" v) then return true else anyAffix test rest

/-- Whether an affix, or one of a tuple of them, fits. -/
def affix (test : List Char → List Char → Bool) (this affix : Value) : Outcome Value := do
  let s ← receiver this
  match affix with
  | .tuple _ options => return .bool (← anyAffix (test s) options)
  | v => return .bool (test s (← textArg "affix" v))

/-- The limit that an argument sets: none if it is negative or no whole number. -/
def limitOf (v : Value) : Option Nat :=
  match v.integer? with
  | some n => if 0 ≤ n then some n.toNat else none
  | none => none

/-- The pieces of a string, cut at blanks or at a separator. -/
def splitPieces (this : Value) (args : Bound) : Outcome (List (List Char)) := do
  let s ← receiver this
  let limit := limitOf (args.get "maxsplit")
  match args.get "sep" with
  | .null => return Text.words limit s
  | v =>
    let sep ← textArg "separator" v
    if sep.isEmpty then throw (.value .emptySeparator)
    return Text.splitOn sep limit s

/-- The texts of values that all have to be strings; `index` counts them. -/
def texts (index : Nat) : List Value → Outcome (List (List Char))
  | [] => .ok []
  | .str s :: rest => do return s.toList :: (← texts (index + 1) rest)
  | v :: _ => .error (.type (.joinItem index v.typeName))

def run (site : Identity) (m : StrMethod) (this : Value) (args : Bound) : Outcome Value :=
  match m with
  | lower => do return ofChars (Text.toLower (← receiver this))
  | upper => do return ofChars (Text.toUpper (← receiver this))
  | strip => stripWith Text.trim this args
  | lstrip => stripWith Text.trimStart this args
  | rstrip => stripWith Text.trimEnd this args
  | startswith => affix (fun s p => p.isPrefixOf s) this (args.get "prefix")
  | endswith => affix (fun s p => p.isSuffixOf s) this (args.get "suffix")
  | split => do return .list site ((← splitPieces this args).map ofChars)
  | join => do
    let sep ← receiver this
    let items ← (args.get "iterable").iterate site
    return ofChars (Text.joinWith sep (← texts 0 items))
  | replace => do
    let s ← receiver this
    let old ← textArg "replace() argument 1" (args.get "old")
    let new ← textArg "replace() argument 2" (args.get "new")
    return ofChars (Text.replace old new (limitOf (args.get "count")) s)

def signature : StrMethod → Signature
  | lower | upper => {}
  | strip | lstrip | rstrip => ({} : Signature).optional "chars" .null
  | startswith => .ofNames ["prefix"]
  | endswith => .ofNames ["suffix"]
  | split => (({} : Signature).optional "sep" .null).optional "maxsplit" (.int (-1))
  | join => .ofNames ["iterable"]
  | replace => (Signature.ofNames ["old", "new"]).optional "count" (.int (-1))

end FilterLang.StrMethod
