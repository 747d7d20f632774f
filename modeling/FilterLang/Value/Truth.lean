import FilterLang.Value.Dict
/-!
Truth, length and iteration.

What counts as true: numbers other than zero, texts and containers that are not
empty, and instances as their `__nonzero__` or else their `__len__` method says.
-/

namespace FilterLang.Value

def lengthResult (v : Value) : Outcome Nat :=
  match v.integer? with
  | some n => if 0 ≤ n then .ok n.toNat else .error (.type .lenResult)
  | none => .error (.type .lenResult)

def len (host : Host) (site : Identity) (v : Value) : Outcome Nat :=
  match v with
  | str s => .ok s.length
  | tuple _ items | list _ items => .ok items.length
  | dict _ d => .ok (Dict.length d)
  | nativeDict _ members => .ok members.length
  | nativeList _ items => .ok items.length
  | v =>
    match v.special? host "__len__" with
    | some m => do lengthResult (← m.call host site v [])
    | none => .error (.type (.noLength v.typeName))

def isTruthy (host : Host) (site : Identity) (v : Value) : Outcome Bool :=
  match v with
  | null => .ok false
  | bool b => .ok b
  | float x => .ok (x.float != 0.0)
  | str s => .ok (!s.isEmpty)
  | tuple _ items | list _ items => .ok (!items.isEmpty)
  | dict _ d => .ok (!d.entries.isEmpty)
  | nativeDict _ members => .ok (!members.isEmpty)
  | nativeList _ items => .ok (!items.isEmpty)
  | v =>
    match v.special? host "__nonzero__" with
    | some m => do
      match ← m.call host site v [] with
      | .bool b => return b
      | other => throw (.type (.nonzeroResult other.typeName))
    | none =>
      match v.special? host "__len__" with
      | some _ => do return (← v.len host site) != 0
      | none => .ok true

/-- The elements of a value that has elements: the characters of a text, the items
of a tuple or a list, the keys of a dict. -/
def iterate (site : Identity) (v : Value) : Outcome (List Value) :=
  match v with
  | str s => .ok (s.toList.map fun c => .str (String.singleton c))
  | tuple _ items | list _ items => .ok items
  | nativeList _ items => .ok (ofItems site items)
  | dict _ d => .ok (Dict.keys d)
  | nativeDict _ members => .ok (members.map fun (name, _) => .str name)
  | v => .error (.type (.notIterable v.typeName))

/-- The value under a key of a dict of either kind. A dict that came from outside
has text keys only. -/
def lookup (host : Host) (site : Identity) (mapping key : Value) : Outcome (Option Value) :=
  match mapping with
  | dict _ d => Dict.get host site d key
  | nativeDict _ members =>
    .ok (key.text?.bind fun name => (Table.get? members name).map (ofJson site))
  | _ => .ok none

end FilterLang.Value
