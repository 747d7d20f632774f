import FilterLang.Value.Items
/-!
The methods of tuples, lists and dicts, and the making of dicts.
-/

namespace FilterLang

namespace SequenceMethod

/-- The position of the first item that is equal to a value, counted from
`start`. -/
def indexFrom (host : Host) (site : Identity) (value : Value) (start : Nat) :
    List Value → Outcome (Option Nat)
  | [] => .ok none
  | v :: rest => do
    if ← v.equals host site value then return some start
    else indexFrom host site value (start + 1) rest

def countEqual (host : Host) (site : Identity) (value : Value) : List Value → Outcome Nat
  | [] => .ok 0
  | v :: rest => do
    let here := if ← v.equals host site value then 1 else 0
    return here + (← countEqual host site value rest)

def run (host : Host) (site : Identity) (m : SequenceMethod) (this : Value) (args : Bound) :
    Outcome Value := do
  let items ← this.iterate site
  match m with
  | index =>
    match ← indexFrom host site (args.get "value") 0 items with
    | some i => return .int i
    | none => throw (.value (.notInSequence this.typeName))
  | count => return .int (← countEqual host site (args.get "value") items)

end SequenceMethod

namespace DictMethod

/-- The entries of the dict that a method is called on. -/
def receiver (site : Identity) (this : Value) : Outcome (List (Value × Value)) :=
  match this.entries? site with
  | some pairs => .ok pairs
  | none => .error (.type (.receiver "dict" this.typeName))

/-- Pairs as tuples, each made at a place of its own. -/
def pairTuples (site : Identity) (pairs : List (Value × Value)) : List Value :=
  pairs.mapIdx fun i (k, v) => .tuple (site.child i) [k, v]

def run (host : Host) (site : Identity) (m : DictMethod) (this : Value) (args : Bound) :
    Outcome Value :=
  match m with
  | get => do return (← this.lookup host site (args.get "key")).getD (args.get "default")
  | hasKey => do return .bool (← this.contains host site (args.get "key"))
  | keys => do return .list site ((← receiver site this).map (·.1))
  | values => do return .list site ((← receiver site this).map (·.2))
  | items => do return .list site (pairTuples site (← receiver site this))
  | getattr =>
    let name := (args.get "name").text?.getD ""
    match this with
    | .nativeDict _ members =>
      match Table.get? members name with
      | some j => .ok (.ofJson site j)
      | none => .error (.attribute this.typeName name)
    | _ => .error (.attribute this.typeName name)

def signature : DictMethod → Signature
  | get => (Signature.ofNames ["key"]).optional "default" .null
  | hasKey => .ofNames ["key"]
  | keys | values | items => {}
  | getattr => .ofNames ["name"]

end DictMethod

namespace Dict

/-- Sets the keys and values that a list of pairs gives; `index` counts the pairs. -/
def insertPairs (host : Host) (site : Identity) (index : Nat) :
    Dict → List Value → Outcome Dict
  | d, [] => .ok d
  | d, pair :: rest => do
    match ← pair.iterate (site.child index) with
    | [k, v] => insertPairs host site (index + 1) (← d.insert host site k v) rest
    | other => throw (.value (.pairLength index other.length))

/-- The dict made from another dict or from pairs, and from named values. -/
def build (host : Host) (site : Identity) (source : Value) (named : List (String × Value)) :
    Outcome Dict := do
  let d ← match source.entries? site with
    | some pairs => insertAll host site [] pairs
    | none =>
      if source.isNone then pure []
      else insertPairs host site 0 [] (← source.iterate site)
  insertAll host site d (named.map fun (name, v) => (.str name, v))

end Dict

end FilterLang
