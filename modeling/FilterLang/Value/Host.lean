import FilterLang.Value.Signature
/-!
The embedding program.

It tells the time, and it may add classes and functions of its own. What these do
is given by functions that the language calls with bound arguments and with the
place at which a new object is made. A host without additions is `Host.plain`.
-/

namespace FilterLang

/-- A method that the embedding program adds. -/
structure HostMethod where
  name : String
  /-- Whether the method is bound to the class of its receiver. -/
  onClass : Bool := false
  signature : Signature := {}

/-- A class that the embedding program adds. -/
structure HostClass where
  /-- The classes it derives from, the nearest first. -/
  ancestors : List Class := [.object]
  methods : List HostMethod := []
  /-- How instances are made, if the class says so itself. -/
  creation : Option Signature := none
  /-- Whether its instances have a native form. -/
  native : Bool := false

structure Host where
  /-- The present moment in universal time. -/
  utc : DateTime
  /-- The present moment in local time. -/
  localTime : DateTime
  classes : String → Option HostClass
  functions : String → Option Signature
  /-- Runs the method `name` of the class `owner` on a receiver. -/
  callMethod : (owner name : String) → Identity → (receiver : Value) → Bound → Outcome Value
  /-- Makes an instance of `cls` by the rule of the class `owner`. -/
  create : (owner : String) → Identity → (cls : Class) → Bound → Outcome Value
  callFunction : (name : String) → Identity → Bound → Outcome Value
  /-- The native form of an instance by the rule of the class `owner`. -/
  toNative : (owner : String) → (fields : List (String × Value)) → Outcome Json

/-- A host without classes and functions of its own. -/
def Host.plain (utc localTime : DateTime) : Host :=
  { utc, localTime
    classes := fun _ => none
    functions := fun _ => none
    callMethod := fun _ _ _ _ _ => .ok .notImplemented
    create := fun owner _ _ _ => .error (.type (.cannotCreate owner))
    callFunction := fun _ _ _ => .ok .null
    toNative := fun owner _ => .error (.type (.noNativeForm owner)) }

namespace Class

/-- The classes that a class derives from, the nearest first. -/
def ancestors (host : Host) : Class → List Class
  | object => []
  | datetime => [.date, .object]
  | .host name => ((host.classes name).map (·.ancestors)).getD []
  | _ => [.object]

/-- A class followed by those it derives from. -/
def lineage (host : Host) (c : Class) : List Class :=
  c :: c.ancestors host

def isSubclass (host : Host) (c other : Class) : Bool :=
  (c.lineage host).contains other

/-- The method that a class declares itself under a name. -/
def ownMethod? (host : Host) (c : Class) (name : String) : Option Method :=
  match c with
  | .host owner =>
    match (host.classes owner).bind fun k => k.methods.find? (·.name == name) with
    | some _ => some (.ofInstance (.host owner name))
    | none => none
  | c => (Method.declaredBy c).find? (·.name == name)

/-- The method of a class under a name, the nearest declaration winning. -/
def method? (host : Host) (c : Class) (name : String) : Option Method :=
  (c.lineage host).findSome? fun k => k.ownMethod? host name

end Class

def Host.method? (host : Host) (owner name : String) : Option HostMethod :=
  (host.classes owner).bind fun k => k.methods.find? (·.name == name)

/-- The method of an instance under a name. Values of the other kinds have no
special methods. -/
def Value.special? (host : Host) (v : Value) (name : String) : Option InstanceMethod :=
  match v with
  | .temporal .. | .object .. =>
    match v.classOf.method? host name with
    | some (.ofInstance m) => some m
    | _ => none
  | _ => none

end FilterLang
