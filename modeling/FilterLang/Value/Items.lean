import FilterLang.Value.Compare
import FilterLang.Value.Text
/-!
Membership, items and attributes.
-/

namespace FilterLang.Value

def isInfixOf (needle : List Char) : List Char → Bool
  | [] => needle.isEmpty
  | c :: rest => needle.isPrefixOf (c :: rest) || isInfixOf needle rest

def contains (host : Host) (site : Identity) (container item : Value) : Outcome Bool :=
  match container with
  | str s =>
    match item with
    | str needle => .ok (isInfixOf needle.toList s.toList)
    | other => .error (.type (.textMember other.typeName))
  | tuple _ items | list _ items => anyEqual host site item items
  | nativeList _ items => anyEqual host site item (ofItems site items)
  | dict _ d => Dict.containsKey host site d item
  | nativeDict _ members => .ok ((item.text?.map (Table.contains members)).getD false)
  | object .. | temporal .. =>
    match container.special? host "__contains__" with
    | some m => do (← m.call host site container [item]).isTruthy host site
    | none => .error (.type (.notIterable container.typeName))
  | v => .error (.type (.notContainer v.typeName))

/-- The place that an index means in a sequence of `length` items; a negative index
counts from the end. -/
def place (sequence : String) (length : Nat) (index : Value) : Outcome Nat :=
  match index.integer? with
  | none => .error (.type (.indexKind sequence index.typeName))
  | some i =>
    let i := if i < 0 then i + length else i
    if 0 ≤ i ∧ i < length then .ok i.toNat else .error (.index sequence)

def pick {α : Type} (sequence : String) (items : List α) (index : Value) : Outcome α := do
  match items[← place sequence items.length index]? with
  | some a => return a
  | none => throw (.index sequence)

def getItem (host : Host) (site : Identity) (object index : Value) : Outcome Value :=
  match object with
  | str s => do return .str (String.singleton (← pick "str" s.toList index))
  | tuple _ items => pick "tuple" items index
  | list _ items => pick "list" items index
  | nativeList _ items => do return ofJson site (← pick "list" items index)
  | dict .. | nativeDict .. => do
    match ← object.lookup host site index with
    | some v => return v
    | none =>
      match index.repr host site with
      | .ok text => throw (.key text)
      | .error _ => throw (.key index.typeName)
  | v =>
    match v.special? host "__getitem__" with
    | some m => m.call host site v [index]
    | none => .error (.type (.notSubscriptable v.typeName))

def field? (v : Value) (name : String) : Option Value :=
  match v with
  | object _ _ fields => Table.get? fields name
  | temporal _ t => t.field? name
  | _ => none

/-- Whether a method is bound to the class of its receiver. -/
def bindsClass (host : Host) : Method → Bool
  | .ofInstance (.temporal m) => m.onClass
  | .ofInstance (.host owner name) => ((host.method? owner name).map (·.onClass)).getD false
  | _ => false

/-- The attribute that the `__getattr__` method of a value finds. Objects that
came from outside show their members. -/
def fallbackAttr (host : Host) (site : Identity) (v : Value) (name : String) : Outcome Value :=
  match v.classOf.method? host "__getattr__" with
  | some (.ofInstance m) => m.call host site v [.str name]
  | some (.dict .getattr) =>
    match v with
    | nativeDict _ members =>
      match Table.get? members name with
      | some j => .ok (ofJson site j)
      | none => .error (.attribute v.typeName name)
    | v => .error (.attribute v.typeName name)
  | _ => .error (.attribute v.typeName name)

/-- The attribute of a value under a name: a field, or a method bound to the value
or to its class, or what the class falls back to. -/
def getAttr (host : Host) (site : Identity) (v : Value) (name : String) : Outcome Value :=
  match v.field? name with
  | some value => .ok value
  | none =>
    match v with
    | cls c =>
      if name = "__name__" then .ok (.str c.name)
      else match c.method? host name with
        | some m => .ok (.method site v m)
        | none => .error (.attribute c.name name)
    | v =>
      if name = "__class__" then .ok (.cls v.classOf)
      else match v.classOf.method? host name with
        | some m =>
          let receiver := if bindsClass host m then .cls v.classOf else v
          .ok (.method site receiver m)
        | none => fallbackAttr host site v name

end FilterLang.Value
