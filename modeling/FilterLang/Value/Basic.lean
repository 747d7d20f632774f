import FilterLang.Calendar.Offset
import FilterLang.Expr.Basic
import FilterLang.Json.Basic
import FilterLang.Number.Signed
import FilterLang.Value.Class
/-!
The values of the language.

The kinds of values are a closed set. Documents that come from outside stay
documents: an array or an object is held as it is, and its parts become values
when they are reached.

An object is known by the place in the computation at which it came into being.
Every evaluation starts from a root; each part of an expression is evaluated at a
place of its own below that of the whole, and each object that an operation makes
stands at or below the place of the operation. So no two objects of one kind are
made at one place.
-/

namespace FilterLang

/-- A place in a computation. -/
inductive Identity where
  /-- The start of a computation, told apart from other ones by a number. -/
  | root (epoch : Nat)
  /-- One of the objects that are made at a place. -/
  | child (parent : Identity) (index : Nat)
  /-- The place of a named entry below a place. -/
  | entry (parent : Identity) (name : String)
  /-- The place of a part of the expression that is evaluated at a place. -/
  | operand (parent : Identity) (index : Nat)
deriving DecidableEq

/-- What a value is found under in a dict: equal keys are one key. -/
inductive HashKey where
  | none
  | notImplemented
  | bool (b : Bool)
  /-- The bits of a number, a zero counting as positive. -/
  | float (bits : UInt64)
  | str (s : String)
  | emptyTuple
  /-- A tuple by the key of its first item and the key of the tuple of the rest. -/
  | tuple (first rest : HashKey)
  /-- An instance by its class and the key of what it hashes to. -/
  | instanceOf (c : Class) (key : HashKey)
  | function (f : Function)
  | cls (c : Class)
  | identity (id : Identity)
deriving DecidableEq

def HashKey.ofNumber (x : Numeric) : HashKey :=
  .float (if x.float == 0.0 then 0 else x.bits)

def HashKey.ofTuple (keys : List HashKey) : HashKey :=
  keys.foldr .tuple .emptyTuple

/-- What a dict holds: its entries, and an index that leads from hash keys to the
slots of entries. -/
structure Store (α : Type) where
  entries : List (α × α) := []
  index : List (HashKey × Nat) := []

/-- The values of the calendar. -/
inductive Temporal where
  | date (d : Date)
  | datetime (t : DateTime)
  | time (c : Clock)
  | duration (d : Duration)
  | offset (o : Offset)
deriving DecidableEq

def Temporal.cls : Temporal → Class
  | date _ => .date
  | datetime _ => .datetime
  | time _ => .time
  | duration _ => .timedelta
  | offset _ => .relativedelta

inductive Value where
  | null
  | notImplemented
  | bool (b : Bool)
  | float (x : Numeric)
  | str (s : String)
  | tuple (id : Identity) (items : List Value)
  | list (id : Identity) (items : List Value)
  | dict (id : Identity) (store : Store Value)
  /-- An array that came from outside. -/
  | nativeList (id : Identity) (items : List Json)
  /-- An object that came from outside. -/
  | nativeDict (id : Identity) (members : List (String × Json))
  | function (f : Function)
  /-- A lambda with the names visible where it was written. -/
  | lambda (id : Identity) (params : List String) (body : Expr) (closure : List (String × Value))
  /-- A method with the value it is called on. -/
  | method (id : Identity) (receiver : Value) (m : Method)
  | cls (c : Class)
  /-- An instance of a class whose state is a table of fields. -/
  | object (id : Identity) (c : Class) (fields : List (String × Value))
  | temporal (id : Identity) (t : Temporal)

namespace Value

def number (x : Float) : Value :=
  .float (.ofFloat x)

def int (n : Int) : Value :=
  number (Number.ofInt n)

def classOf : Value → Class
  | null => .noneType
  | notImplemented => .notImplementedType
  | bool _ => .bool
  | float _ => .float
  | str _ => .str
  | tuple .. => .tuple
  | list .. | nativeList .. => .list
  | dict .. | nativeDict .. => .dict
  | function _ | lambda .. => .function
  | method .. => .method
  | cls _ => .type
  | object _ c _ => c
  | temporal _ t => t.cls

def typeName (v : Value) : String :=
  v.classOf.name

def text? : Value → Option String
  | str s => some s
  | _ => none

def float? : Value → Option Float
  | float x => some x.float
  | _ => none

/-- The whole number that a number or a truth value is, if it is one. -/
def integer? : Value → Option Int
  | float x => Number.integral? x.float
  | bool b => some (if b then 1 else 0)
  | _ => none

def isNone : Value → Bool
  | null => true
  | _ => false

/-- Whether two values are the same object. Values without an identity of their
own are the same when they are equal. -/
def identical : Value → Value → Bool
  | null, null => true
  | notImplemented, notImplemented => true
  | bool a, bool b => a == b
  | float a, float b => a.float == b.float
  | str a, str b => a == b
  | tuple a _, tuple b _ => a == b
  | list a _, list b _ => a == b
  | dict a _, dict b _ => a == b
  | nativeList a _, nativeList b _ => a == b
  | nativeDict a _, nativeDict b _ => a == b
  | function a, function b => a == b
  | lambda a .., lambda b .. => a == b
  | method a .., method b .. => a == b
  | cls a, cls b => a == b
  | object a .., object b .. => a == b
  | temporal a _, temporal b _ => a == b
  | _, _ => false

/-- A document as a value made at a place. Arrays and objects are not opened. -/
def ofJson (site : Identity) : Json → Value
  | .null => .null
  | .bool b => .bool b
  | .int n => .int n
  | .float x => .number x
  | .str s => .str s
  | .array items => .nativeList site items
  | .object members => .nativeDict site members

/-- The items of a document's array as values, each at a place of its own. -/
def ofItems (site : Identity) (items : List Json) : List Value :=
  items.mapIdx fun i j => ofJson (site.child i) j

/-- The members of a document's object as values, each at a place of its own. -/
def ofMembers (site : Identity) (members : List (String × Json)) : List (Value × Value) :=
  members.map fun (name, j) => (.str name, ofJson (site.entry name) j)

def listItems? (site : Identity) : Value → Option (List Value)
  | list _ items => some items
  | nativeList _ items => some (ofItems site items)
  | _ => none

def entries? (site : Identity) : Value → Option (List (Value × Value))
  | dict _ d => some d.entries
  | nativeDict _ members => some (ofMembers site members)
  | _ => none

end Value

end FilterLang
