/-!
Classes, and the names of what they offer.

A method or a function of the language is a tag here; what it does is said where
the values it works on are known. Classes that the embedding program adds are
known by their names.
-/

namespace FilterLang

inductive Class where
  | object | type | noneType | notImplementedType | bool | float | str | tuple | list | dict
  | function | method | module
  | date | datetime | time | timedelta | relativedelta
  | host (name : String)
deriving DecidableEq

def Class.name : Class → String
  | object => "object"
  | type => "type"
  | noneType => "NoneType"
  | notImplementedType => "NotImplementedType"
  | bool => "bool"
  | float => "float"
  | str => "str"
  | tuple => "tuple"
  | list => "list"
  | dict => "dict"
  | function => "function"
  | method => "instancemethod"
  | module => "module"
  | date => "date"
  | datetime => "datetime"
  | time => "time"
  | timedelta => "timedelta"
  | relativedelta => "relativedelta"
  | host name => name

/-- The functions of the language, and those that the embedding program adds. -/
inductive Function where
  | abs | len | isinstance | issubclass | round | int | min | max
  | contextToday | strftime
  | host (name : String)
deriving DecidableEq

def Function.name : Function → String
  | abs => "abs"
  | len => "len"
  | isinstance => "isinstance"
  | issubclass => "issubclass"
  | round => "round"
  | int => "int"
  | min => "min"
  | max => "max"
  | contextToday => "context_today"
  | strftime => "strftime"
  | host name => name

/-- The six rich comparisons. -/
inductive Relation where
  | eq | ne | lt | le | gt | ge
deriving DecidableEq

namespace Relation

def all : List Relation := [eq, ne, lt, le, gt, ge]

def method : Relation → String
  | eq => "__eq__"
  | ne => "__ne__"
  | lt => "__lt__"
  | le => "__le__"
  | gt => "__gt__"
  | ge => "__ge__"

/-- The comparison with its operands exchanged. -/
def flip : Relation → Relation
  | eq => eq
  | ne => ne
  | lt => gt
  | le => ge
  | gt => lt
  | ge => le

/-- Whether an order of the operands satisfies a comparison. -/
def accepts : Relation → Ordering → Bool
  | eq, o => o == .eq
  | ne, o => o != .eq
  | lt, o => o == .lt
  | le, o => o != .gt
  | gt, o => o == .gt
  | ge, o => o != .lt

end Relation

inductive StrMethod where
  | lower | upper | strip | lstrip | rstrip | startswith | endswith | split | join | replace
deriving DecidableEq

inductive SequenceMethod where
  | index | count
deriving DecidableEq

inductive DictMethod where
  | get | hasKey | keys | values | items | getattr
deriving DecidableEq

inductive DateMethod where
  | today | strftime | isoformat | str | repr | replace | toordinal | weekday | isoweekday
  | add | radd | sub | hash
  | compare (r : Relation)
deriving DecidableEq

/-- The methods of dates with a time of day, where they differ from those of
dates. -/
inductive DatetimeMethod where
  | now | today | utcnow | combine | strftime | isoformat | str | repr | replace | date | time
  | add | radd | sub | hash
  | compare (r : Relation)
deriving DecidableEq

inductive TimeMethod where
  | strftime | isoformat | str | hash
  | compare (r : Relation)
deriving DecidableEq

inductive DurationMethod where
  | add | radd | sub | rsub | neg | pos | abs | mul | rmul | div | floordiv
  | totalSeconds | nonzero | hash | str | repr
  | compare (r : Relation)
deriving DecidableEq

inductive OffsetMethod where
  | add | radd | rsub | neg | repr
deriving DecidableEq

inductive TemporalMethod where
  | date (m : DateMethod)
  | datetime (m : DatetimeMethod)
  | time (m : TimeMethod)
  | duration (m : DurationMethod)
  | offset (m : OffsetMethod)
deriving DecidableEq

/-- The methods that belong to instances of classes: calendar values and the
classes of the embedding program. -/
inductive InstanceMethod where
  | temporal (m : TemporalMethod)
  | host (owner name : String)
deriving DecidableEq

inductive Method where
  | str (m : StrMethod)
  | sequence (m : SequenceMethod)
  | dict (m : DictMethod)
  | ofInstance (m : InstanceMethod)
deriving DecidableEq

def StrMethod.name : StrMethod → String
  | lower => "lower"
  | upper => "upper"
  | strip => "strip"
  | lstrip => "lstrip"
  | rstrip => "rstrip"
  | startswith => "startswith"
  | endswith => "endswith"
  | split => "split"
  | join => "join"
  | replace => "replace"

def SequenceMethod.name : SequenceMethod → String
  | index => "index"
  | count => "count"

def DictMethod.name : DictMethod → String
  | get => "get"
  | hasKey => "has_key"
  | keys => "keys"
  | values => "values"
  | items => "items"
  | getattr => "__getattr__"

def DateMethod.name : DateMethod → String
  | today => "today"
  | strftime => "strftime"
  | isoformat => "isoformat"
  | str => "__str__"
  | repr => "__repr__"
  | replace => "replace"
  | toordinal => "toordinal"
  | weekday => "weekday"
  | isoweekday => "isoweekday"
  | add => "__add__"
  | radd => "__radd__"
  | sub => "__sub__"
  | hash => "__hash__"
  | compare r => r.method

def DatetimeMethod.name : DatetimeMethod → String
  | now => "now"
  | today => "today"
  | utcnow => "utcnow"
  | combine => "combine"
  | strftime => "strftime"
  | isoformat => "isoformat"
  | str => "__str__"
  | repr => "__repr__"
  | replace => "replace"
  | date => "date"
  | time => "time"
  | add => "__add__"
  | radd => "__radd__"
  | sub => "__sub__"
  | hash => "__hash__"
  | compare r => r.method

def TimeMethod.name : TimeMethod → String
  | strftime => "strftime"
  | isoformat => "isoformat"
  | str => "__str__"
  | hash => "__hash__"
  | compare r => r.method

def DurationMethod.name : DurationMethod → String
  | add => "__add__"
  | radd => "__radd__"
  | sub => "__sub__"
  | rsub => "__rsub__"
  | neg => "__neg__"
  | pos => "__pos__"
  | abs => "__abs__"
  | mul => "__mul__"
  | rmul => "__rmul__"
  | div => "__div__"
  | floordiv => "__floordiv__"
  | totalSeconds => "total_seconds"
  | nonzero => "__nonzero__"
  | hash => "__hash__"
  | str => "__str__"
  | repr => "__repr__"
  | compare r => r.method

def OffsetMethod.name : OffsetMethod → String
  | add => "__add__"
  | radd => "__radd__"
  | rsub => "__rsub__"
  | neg => "__neg__"
  | repr => "__repr__"

def TemporalMethod.name : TemporalMethod → String
  | date m => m.name
  | datetime m => m.name
  | time m => m.name
  | duration m => m.name
  | offset m => m.name

def InstanceMethod.name : InstanceMethod → String
  | temporal m => m.name
  | host _ name => name

def Method.name : Method → String
  | str m => m.name
  | sequence m => m.name
  | dict m => m.name
  | ofInstance m => m.name

/-- Whether a method is bound to the class of its receiver. -/
def TemporalMethod.onClass : TemporalMethod → Bool
  | date .today | datetime .now | datetime .today | datetime .utcnow | datetime .combine => true
  | _ => false

def StrMethod.all : List StrMethod :=
  [lower, upper, strip, lstrip, rstrip, startswith, endswith, split, join, replace]

def SequenceMethod.all : List SequenceMethod :=
  [index, count]

def DictMethod.all : List DictMethod :=
  [get, hasKey, keys, values, items, getattr]

def DateMethod.all : List DateMethod :=
  [today, strftime, isoformat, str, repr, replace, toordinal, weekday, isoweekday, add, radd, sub,
    hash] ++ Relation.all.map compare

/-- The methods that dates with a time of day declare themselves. -/
def DatetimeMethod.all : List DatetimeMethod :=
  [now, today, utcnow, combine, strftime, isoformat, str, repr, replace, date, time, add, radd, sub,
    hash] ++ Relation.all.map compare

def TimeMethod.all : List TimeMethod :=
  [strftime, isoformat, str, hash] ++ Relation.all.map compare

def DurationMethod.all : List DurationMethod :=
  [add, radd, sub, rsub, neg, pos, abs, mul, rmul, div, floordiv, totalSeconds, nonzero, hash, str,
    repr] ++ Relation.all.map compare

def OffsetMethod.all : List OffsetMethod :=
  [add, radd, rsub, neg, repr]

def TemporalMethod.declaredBy : Class → List TemporalMethod
  | .date => DateMethod.all.map .date
  | .datetime => DatetimeMethod.all.map .datetime
  | .time => TimeMethod.all.map .time
  | .timedelta => DurationMethod.all.map .duration
  | .relativedelta => OffsetMethod.all.map .offset
  | _ => []

def Method.declaredBy : Class → List Method
  | .str => StrMethod.all.map .str
  | .tuple | .list => SequenceMethod.all.map .sequence
  | .dict => DictMethod.all.map .dict
  | c => (TemporalMethod.declaredBy c).map fun m => .ofInstance (.temporal m)

end FilterLang
