import FilterLang.Expr.Eval
/-!
Source text: from text to expression, and from text to the native form of its
value.

The native forms of values are the documents that the embedding program gets back.
Whole numbers become whole numbers as long as every number up to their size is
exact. Documents that came from outside go back as they came. The keys of a dict
become texts; entries whose keys become the same text are one member, the last
value winning.
-/

namespace FilterLang

namespace Value

def nativeNumber (x : Float) : Outcome Json :=
  match Number.integral? x with
  | some n =>
    if -Number.maxExact ≤ n ∧ n ≤ Number.maxExact then .ok (.int n) else .ok (.float x)
  | none => if x.isFinite then .ok (.float x) else .error (.value (.floatRange (Decimal.plain x)))

/-- The member name that a key of a dict becomes. -/
def nativeKey (host : Host) (site : Identity) (key : Value) : Outcome String :=
  match key with
  | str s => .ok s
  | float x => .ok (Decimal.plain x.float)
  | bool b => .ok (if b then "true" else "false")
  | null => .ok "null"
  | v =>
    match v.repr host site with
    | .ok text => .error (.type (.keyKind text))
    | .error _ => .error (.type (.keyKind v.typeName))

/-- The native form of an instance, by the nearest class that gives one. -/
def nativeObject (host : Host) (c : Class) (fields : List (String × Value)) : Outcome Json :=
  let owner := (c.lineage host).findSome? fun k =>
    match k with
    | .host name => (host.classes name).bind fun h => if h.native then some name else none
    | _ => none
  match owner with
  | some name => host.toNative name fields
  | none => .error (.type (.noNativeForm c.name))

mutual

def toNative (host : Host) (site : Identity) : Value → Outcome Json
  | null => .ok .null
  | bool b => .ok (.bool b)
  | float x => nativeNumber x.float
  | str s => .ok (.str s)
  | tuple _ items => do return .array (← nativeItems host site items)
  | list _ items => do return .array (← nativeItems host site items)
  | dict _ ⟨entries, _⟩ => do return .object (← nativeEntries host site [] entries)
  | nativeList _ items => .ok (.array items)
  | nativeDict _ members => .ok (.object members)
  | object _ c fields => nativeObject host c fields
  | temporal _ t =>
    match t.native? with
    | some j => .ok j
    | none => .error (.type (.noNativeForm t.cls.name))
  | v@notImplemented | v@(function _) | v@(lambda ..) | v@(method ..) | v@(cls _) =>
    .error (.type (.noNativeForm v.typeName))

def nativeItems (host : Host) (site : Identity) : List Value → Outcome (List Json)
  | [] => .ok []
  | v :: rest => do
    let j ← toNative host site v
    return j :: (← nativeItems host site rest)

/-- A table with the native forms of the entries of a dict set. -/
def nativeEntries (host : Host) (site : Identity) (members : Table Json) :
    List (Value × Value) → Outcome (Table Json)
  | [] => .ok members
  | e :: rest => do
    let (name, j) ← nativeEntry host site e
    nativeEntries host site (Table.insert members name j) rest

def nativeEntry (host : Host) (site : Identity) : Value × Value → Outcome (String × Json)
  | (k, v) => do
    let name ← nativeKey host site k
    return (name, ← toNative host site v)

end

end Value

def compile (text : String) : Outcome Expr := do
  let tokens ← (tokenize text).mapError EvalError.tokenize
  (parse tokens).mapError EvalError.parse

def evalValue (host : Host) (c : Context) (site : Identity) (text : String) : Outcome Value := do
  (← compile text).eval host c site

/-- The native form of the value of a text in a context. -/
def evalText (host : Host) (c : Context) (site : Identity) (text : String) : Outcome Json := do
  (← evalValue host c site text).toNative host site

/-- A context in which the words of documents for truth values and for nothing
have their meaning. -/
def Context.withJsonWords (c : Context) : Context :=
  Table.overlay c [("true", .bool true), ("false", .bool false), ("null", .null)]

end FilterLang
