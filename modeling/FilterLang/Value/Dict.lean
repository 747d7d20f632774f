import FilterLang.Value.Hash
/-!
Dicts: entries in the order in which their keys first came, and an index.

The index leads from a hash key to the slot of an entry. A key is found by its hash
key through the index; setting it writes the value in its slot, where the key value
it was first given stays, or adds an entry at the end and a slot to the index.

Assumed: the index is a finite map from hash keys, here a list of bindings, of which
there is one for each hash key. Nothing but `set` changes a dict, so its two parts
are kept in step by `set` alone: no slot is out of range in a dict that was made by
setting keys.

Operations: `insert` is `Dict.put`, of which `Dict.insert` gives the dict, `get` is
`Dict.get`, `contains_key` is `Dict.containsKey`, `get_str` is `Dict.getText`, `len` is
`Dict.length`, and `keys`, `values` and `iter` are `Dict.keys`, `Dict.values` and the
entries.
-/

namespace FilterLang

abbrev Dict := Store Value

/-- An empty dict may be written as an empty list. -/
instance {α : Type u} : CoeDep (List α) [] Dict := ⟨{}⟩

namespace Dict

/-- The slot to which the index leads from a hash key. -/
def slot? (d : Dict) (hash : HashKey) : Option Nat :=
  d.index.lookup hash

/-- The value found under a hash key. -/
def find? (d : Dict) (hash : HashKey) : Option Value :=
  (d.slot? hash).bind fun slot => d.entries[slot]?.map (·.2)

/-- Sets the value under a hash key. -/
def set (d : Dict) (hash : HashKey) (key value : Value) : Dict :=
  match d.slot? hash with
  | some slot => { d with entries := d.entries.modify slot fun e => (e.1, value) }
  | none =>
    { entries := d.entries ++ [(key, value)], index := d.index ++ [(hash, d.entries.length)] }

/-- Sets the value of a key in the dict at hand. The key has to be hashable, which is found out
before anything is changed. -/
def put (host : Host) (site : Identity) (key value : Value) :
    ExceptT EvalError (StateM Dict) Unit := do
  let hash ← ExceptT.mk (pure (key.hashKey host site))
  modify fun d => d.set hash key value

/-- The dict after the value of a key was set, unless that failed. -/
def insert (host : Host) (site : Identity) (d : Dict) (key value : Value) : Outcome Dict :=
  match (put host site key value).run d with
  | (.ok _, d) => .ok d
  | (.error e, _) => .error e

def get (host : Host) (site : Identity) (d : Dict) (key : Value) : Outcome (Option Value) := do
  return d.find? (← key.hashKey host site)

/-- Whether the index leads anywhere from a key, which has to be hashable. -/
def containsKey (host : Host) (site : Identity) (d : Dict) (key : Value) : Outcome Bool := do
  return (d.slot? (← key.hashKey host site)).isSome

def getText (d : Dict) (key : String) : Option Value :=
  d.find? (.str key)

def length (d : Dict) : Nat :=
  d.entries.length

def keys (d : Dict) : List Value :=
  d.entries.map (·.1)

def values (d : Dict) : List Value :=
  d.entries.map (·.2)

/-- Sets several keys, one after the other. -/
def insertAll (host : Host) (site : Identity) : Dict → List (Value × Value) → Outcome Dict
  | d, [] => .ok d
  | d, (k, v) :: rest => do
    insertAll host site (← d.insert host site k v) rest

end Dict

end FilterLang
