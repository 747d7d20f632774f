import FilterLang.Value.Temporal
/-!
Hash keys of values.

Lists and dicts of either kind have no hash key. An instance whose class has a
`__hash__` method is hashed by its class and by the key of what that method
returns; a chain of such methods is followed only so far.
-/

namespace FilterLang.Value

mutual

/-- The hash key of a value. `next` gives the key of what a `__hash__` method of
the embedding program returns. -/
def hashKeyWith (host : Host) (site : Identity) (next : Value → Outcome HashKey) :
    Value → Outcome HashKey
  | null => .ok .none
  | notImplemented => .ok .notImplemented
  | bool b => .ok (.bool b)
  | float x => .ok (.ofNumber x)
  | str s => .ok (.str s)
  | tuple _ items => do return .ofTuple (← hashKeysWith host site next items)
  | function f => .ok (.function f)
  | cls c => .ok (.cls c)
  | lambda id .. => .ok (.identity id)
  | method id .. => .ok (.identity id)
  | temporal id t =>
    match t.hashKey? with
    | some k => .ok (.instanceOf t.cls k)
    | none => .ok (.identity id)
  | object id c fields =>
    match special? host (object id c fields) "__hash__" with
    | some m => do
      let hashed ← m.call host site (object id c fields) []
      return .instanceOf c (← next hashed)
    | none => .ok (.identity id)
  | list .. | nativeList .. => .error (.type (.unhashable "list"))
  | dict .. | nativeDict .. => .error (.type (.unhashable "dict"))

def hashKeysWith (host : Host) (site : Identity) (next : Value → Outcome HashKey) :
    List Value → Outcome (List HashKey)
  | [] => .ok []
  | v :: rest => do
    let k ← hashKeyWith host site next v
    return k :: (← hashKeysWith host site next rest)

end

/-- The hash key of a value, following at most `hops` host methods. -/
def hashKeyWithin (host : Host) (site : Identity) : Nat → Value → Outcome HashKey
  | 0 => hashKeyWith host site fun _ => .error .tooDeep
  | hops + 1 => hashKeyWith host site (hashKeyWithin host site hops)

/-- How many `__hash__` methods of the embedding program are followed. -/
def maxHashHops : Nat := 1000

def hashKey (host : Host) (site : Identity) (v : Value) : Outcome HashKey :=
  hashKeyWithin host site maxHashHops v

end FilterLang.Value
