import FilterLang.Value.Arithmetic
import FilterLang.Value.Containers
import FilterLang.Value.Strings
/-!
Functions, classes and methods as things that can be called.

`Value.callWith` calls any value. A lambda is the only callable whose body is an
expression; how expressions are evaluated is a parameter here.
-/

namespace FilterLang

def numberArg (callee : String) (v : Value) : Outcome Numeric :=
  match v with
  | .float x => .ok x
  | .bool b => .ok (.ofFloat (if b then 1.0 else 0.0))
  | v => .error (.type (.notANumber callee v.typeName))

def toNumber (v : Value) : Outcome Numeric :=
  match v with
  | .str s =>
    match Numeric.ofText? (Text.trim Text.isBlank s.toList) with
    | some x => .ok x
    | none => .error (.value (.floatLiteral s))
  | v => numberArg "float" v

/-- The whole part of a number, or the whole number that a string spells. -/
def toWhole (v : Value) : Outcome Numeric :=
  match v with
  | .str s =>
    match Decimal.toInt? (Text.trim Text.isBlank s.toList) with
    | some n => .ok (.ofFloat (Number.ofInt n))
    | none => .error (.value (.intLiteral s))
  | v => (numberArg "int" v).map Numeric.truncate

mutual

/-- Whether a class is, or derives from, one that a class or a tuple of classes
names. -/
def matchesClassInfo (host : Host) (callee : String) (c : Class) : Value → Outcome Bool
  | .cls target => .ok (c.isSubclass host target)
  | .tuple _ options => matchesAnyClassInfo host callee c options
  | _ => .error (.type (.classInfo callee))

/-- Whether a class is, or derives from, one that one of several options names. -/
def matchesAnyClassInfo (host : Host) (callee : String) (c : Class) : List Value → Outcome Bool
  | [] => .ok false
  | v :: rest => do
    if ← matchesClassInfo host callee c v then return true
    else matchesAnyClassInfo host callee c rest

end

/-- The first of several values that no later one is before, in the order of a
comparison. -/
def bestOf (host : Host) (site : Identity) (r : Relation) (best : Value) :
    List Value → Outcome Value
  | [] => .ok best
  | v :: rest => do
    let better ← v.compareWith host site r best
    if ← better.isTruthy host site then bestOf host site r v rest
    else bestOf host site r best rest

/-- The least or greatest of the arguments, or of the elements of a single
argument. -/
def extreme (host : Host) (site : Identity) (r : Relation) (callee : String)
    (args : List Value) : Outcome Value := do
  let candidates ← match args with
    | [single] => single.iterate site
    | many => pure many
  match candidates with
  | [] => throw (.value (.emptySequence callee))
  | v :: rest => bestOf host site r v rest

namespace Function

def signature (host : Host) : Function → Signature
  | abs => .ofNames ["x"]
  | len => .ofNames ["obj"]
  | isinstance => .ofNames ["object", "classinfo"]
  | issubclass => .ofNames ["class", "classinfo"]
  | round => (Signature.ofNames ["number"]).optional "ndigits" (.int 0)
  | int => ({} : Signature).optional "x" (.int 0)
  | min | max => ({} : Signature).varargs "args"
  | contextToday => {}
  | strftime => .ofNames ["format"]
  | .host name => (host.functions name).getD {}

def magnitude (host : Host) (site : Identity) (v : Value) : Outcome Value :=
  match v.special? host "__abs__" with
  | some m => m.call host site v []
  | none => do return .float (← numberArg "abs" v).magnitude

def run (host : Host) (site : Identity) (f : Function) (args : Bound) : Outcome Value :=
  match f with
  | abs => magnitude host site (args.get "x")
  | len => do return .int (← (args.get "obj").len host site)
  | isinstance => do
    return .bool (← matchesClassInfo host "isinstance" (args.get "object").classOf
      (args.get "classinfo"))
  | issubclass =>
    match args.get "class" with
    | .cls c => do
      return .bool (← matchesClassInfo host "issubclass" c (args.get "classinfo"))
    | _ => .error (.type .notAClass)
  | round => do
    let x ← numberArg "round" (args.get "number")
    match (args.get "ndigits").integer? with
    | some n => return .float (x.roundDecimals (Number.wrapBits 32 n))
    | none => throw (.type .roundDigits)
  | int => do return .float (← toWhole (args.get "x"))
  | min => extreme host site .lt "min" args.rest
  | max => extreme host site .gt "max" args.rest
  | contextToday => .ok (.temporal site (.date host.localTime.date))
  | strftime => do
    let layout ← args.layout
    return .str (← .ofCalendar (host.utc.format layout))
  | .host name => host.callFunction name site args

end Function

namespace Method

def signature (host : Host) : Method → Signature
  | str m => m.signature
  | sequence _ => .ofNames ["value"]
  | dict m => m.signature
  | ofInstance m => m.signature host

def run (host : Host) (site : Identity) (m : Method) (this : Value) (args : Bound) :
    Outcome Value :=
  match m with
  | str m => m.run site this args
  | sequence m => m.run host site this args
  | dict m => m.run host site this args
  | ofInstance m => m.run host site this args

end Method

namespace Class

/-- The parameters with which a class makes instances, if it says so itself. -/
def ownCreation? (host : Host) : Class → Option Signature
  | object => some {}
  | type => some (.ofNames ["object"])
  | bool => some (({} : Signature).optional "x" (.bool false))
  | float => some (({} : Signature).optional "x" (.int 0))
  | str => some (({} : Signature).optional "object" (.str ""))
  | tuple | list => some (({} : Signature).optional "iterable" (.tuple (.root 0) []))
  | dict => some ((({} : Signature).optional "iterable" .null).varkw "kwargs")
  | .host name => (host.classes name).bind (·.creation)
  | c => Temporal.creation? c

/-- The class whose rule makes the instances of a class, with its parameters. -/
def creation? (host : Host) (c : Class) : Option (Class × Signature) :=
  (c.lineage host).findSome? fun owner => (owner.ownCreation? host).map fun s => (owner, s)

/-- Makes an instance of a class by the rule of the class `owner`. -/
def create (host : Host) (site : Identity) (owner c : Class) (args : Bound) : Outcome Value :=
  match owner with
  | type => .ok (.cls (args.get "object").classOf)
  | bool => do return .bool (← (args.get "x").isTruthy host site)
  | float => do return .float (← toNumber (args.get "x"))
  | str => do return .str (← (args.get "object").toText host site)
  | tuple => do return .tuple site (← (args.get "iterable").iterate site)
  | list => do return .list site (← (args.get "iterable").iterate site)
  | dict => do return .dict site (← Dict.build host site (args.get "iterable") args.keywords)
  | .host name => host.create name site c args
  | owner => do
    match ← Temporal.create owner args with
    | some t => return .temporal site t
    | none => return .object site c []

end Class

/-- Calls a value. `runBody` evaluates the body of a lambda with the names that it
sees, its parameters among them. -/
def Value.callWith (host : Host) (site : Identity)
    (runBody : Expr → Table Value → Outcome Value) (callee : Value) (args : List Value)
    (keywords : List (String × Value)) : Outcome Value :=
  match callee with
  | .function f => do
    let bound ← (f.signature host).bind f.name args keywords
    f.run host site bound
  | .lambda _ params body closure => do
    let bound ← (Signature.ofNames params).bind "<lambda>" args keywords
    runBody body (Table.overlay closure bound.named)
  | .method _ receiver m => do
    let bound ← (m.signature host).bind m.name args keywords
    m.run host site receiver bound
  | .cls c =>
    match c.creation? host with
    | some (owner, s) => do
      let bound ← s.bind c.name args keywords
      Class.create host site owner c bound
    | none => .error (.type (.cannotCreate c.name))
  | v =>
    match v.special? host "__call__" with
    | some m => do
      let bound ← (m.signature host).bind m.name args keywords
      m.run host site v bound
    | none => .error (.type (.notCallable v.typeName))

end FilterLang
