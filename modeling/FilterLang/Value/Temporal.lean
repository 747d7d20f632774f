import FilterLang.Calendar.Format
import FilterLang.Value.Host
/-!
Calendar values in the language: their fields, their methods and how they are made.

A method that gets an operand of a kind it does not know answers
`NotImplemented`, which hands the operation over to the other operand. A method
called on something that is no calendar value of its class is a fault.
-/

namespace FilterLang

namespace Value

/-- The date of a date, with or without a time of day. -/
def date? : Value → Option Date
  | temporal _ (.date d) => some d
  | temporal _ (.datetime t) => some t.date
  | _ => none

/-- The date of a date without a time of day. -/
def plainDate? : Value → Option Date
  | temporal _ (.date d) => some d
  | _ => none

/-- The moment that a date with a time of day is. -/
def datetime? : Value → Option DateTime
  | temporal _ (.datetime t) => some t
  | _ => none

def clock? : Value → Option Clock
  | temporal _ (.time c) => some c
  | _ => none

def duration? : Value → Option Duration
  | temporal _ (.duration d) => some d
  | _ => none

def offset? : Value → Option Offset
  | temporal _ (.offset o) => some o
  | _ => none

/-- What a method's receiver has to be. -/
def receiver {α : Type} (wanted : String) (view : Value → Option α) (this : Value) : Outcome α :=
  match view this with
  | some a => .ok a
  | none => .error (.type (.receiver wanted this.typeName))

def offsetReceiver (this : Value) : Outcome Offset :=
  match this.offset? with
  | some o => .ok o
  | none => .error (.type .offsetReceiver)

end Value

namespace Bound

/-- An argument that has to be a whole number. -/
def integer (b : Bound) (name : String) : Outcome Int :=
  match (b.get name).integer? with
  | some n => .ok n
  | none => .error (.type (.integerArgument name (b.get name).typeName))

/-- An argument that has to be a whole number or left out. -/
def integerOr (b : Bound) (name : String) (default : Int) : Outcome Int :=
  if (b.get name).isNone then .ok default else b.integer name

/-- An argument that is a whole number, or nothing when it is left out. -/
def integer? (b : Bound) (name : String) : Outcome (Option Int) :=
  if (b.get name).isNone then .ok none else (b.integer name).map some

/-- An argument that has to be a number or a truth value. -/
def durationPart (b : Bound) (name : String) : Outcome Float :=
  match b.get name with
  | .float x => .ok x.float
  | .bool t => .ok (if t then 1.0 else 0.0)
  | v => .error (.type (.durationPart name v.typeName))

def layout (b : Bound) : Outcome String :=
  match b.get "format" with
  | .str s => .ok s
  | v => .error (.type (.notText "strftime() argument 1" v.typeName))

end Bound

namespace Temporal

def clockField? (c : Clock) (name : String) : Option Value :=
  match name with
  | "hour" => some (.int c.hour)
  | "minute" => some (.int c.minute)
  | "second" => some (.int c.second)
  | "microsecond" => some (.int c.micro)
  | "tzinfo" => some .null
  | _ => none

def dateField? (d : Date) (name : String) : Option Value :=
  match name with
  | "year" => some (.int d.year)
  | "month" => some (.int d.month)
  | "day" => some (.int d.day)
  | _ => none

/-- A part of an offset that may be missing. -/
def optionalField (part : Option Int) : Value :=
  match part with
  | some n => .int n
  | none => .null

def offsetField? (o : Offset) (name : String) : Option Value :=
  match name with
  | "year" => some (optionalField o.year)
  | "month" => some (optionalField o.month)
  | "day" => some (optionalField o.day)
  | "weekday" => some (optionalField o.weekday)
  | "years" => some (.int o.years)
  | "months" => some (.int o.months)
  | "days" => some (.int o.days)
  | "leapdays" => some (.int o.leapdays)
  | _ => none

def field? : Temporal → String → Option Value
  | date d, name => dateField? d name
  | datetime t, name => (dateField? t.date name).or (clockField? t.clock name)
  | time c, name => clockField? c name
  | duration d, name =>
    match name with
    | "days" => some (.int d.days)
    | "seconds" => some (.int d.seconds)
    | "microseconds" => some (.int d.microseconds)
    | _ => none
  | offset o, name => offsetField? o name

/-- What a calendar value hashes to. Offsets hash by identity. -/
def hashKey? : Temporal → Option HashKey
  | date d => some (.ofNumber (.ofFloat (Number.ofInt d.ordinal)))
  | datetime t => some (.str (t.iso "T"))
  | time c => some (.str c.iso)
  | duration d => some (.str (toString d.micros))
  | offset _ => none

/-- The native form of a calendar value. Offsets have none. -/
def native? : Temporal → Option Json
  | date d => some (.str d.iso)
  | datetime t => some (.str t.text)
  | time c => some (.str c.hms)
  | duration d => some (.float d.totalSeconds)
  | offset _ => none

end Temporal

/-- Compares two values by a key that both have to have. -/
def compareBy {α : Type} (key : Value → Option α) (order : α → α → Ordering) (r : Relation)
    (a b : Value) : Value :=
  match key a, key b with
  | some x, some y => .bool (r.accepts (order x y))
  | _, _ => .notImplemented

def Date.callText (d : Date) : String :=
  "datetime.date(" ++ toString d.year ++ ", " ++ toString d.month ++ ", " ++ toString d.day ++ ")"

/-- A moment as the call that makes it. Seconds and microseconds are left out
when they and all after them are zero. -/
def DateTime.callText (t : DateTime) : String :=
  let second := if t.clock.second ≠ 0 ∨ t.clock.micro ≠ 0 then [t.clock.second] else []
  let micro := if t.clock.micro ≠ 0 then [t.clock.micro] else []
  let parts := [t.date.year, t.date.month, t.date.day, t.clock.hour, t.clock.minute] ++ second ++
    micro
  "datetime.datetime(" ++ String.intercalate ", " (parts.map toString) ++ ")"

def Duration.callText (d : Duration) : String :=
  "datetime.timedelta(" ++ toString d.days ++ ", " ++ toString d.seconds ++ ", " ++
    toString d.microseconds ++ ")"

namespace DateMethod

/-- A date moved by the whole days of a duration. -/
def shift (site : Identity) (this other : Value) (sign : Int) : Outcome Value :=
  match other.duration? with
  | none => .ok .notImplemented
  | some t => do
    let d ← this.receiver "date" Value.date?
    let moved ← .ofCalendar (d.addDays (t.days * sign))
    return .temporal site (.date moved)

/-- The arguments that replace the parts of a date. -/
def replaced (d : Date) (args : Bound) : Outcome Date := do
  let year ← args.integer? "year"
  let month ← args.integer? "month"
  let day ← args.integer? "day"
  .ofCalendar (d.replace year month day)

def run (host : Host) (site : Identity) (m : DateMethod) (this : Value) (args : Bound) :
    Outcome Value :=
  match m with
  | today => .ok (.temporal site (.date host.localTime.date))
  | strftime => do
    let d ← this.receiver "date" Value.date?
    let layout ← args.layout
    return .str (← .ofCalendar (d.format layout))
  | isoformat | str => do
    let d ← this.receiver "date" Value.date?
    return .str d.iso
  | repr => do
    let d ← this.receiver "date" Value.date?
    return .str d.callText
  | replace => do
    let d ← this.receiver "date" Value.date?
    return .temporal site (.date (← replaced d args))
  | toordinal | hash => do
    let d ← this.receiver "date" Value.date?
    return .int d.ordinal
  | weekday => do
    let d ← this.receiver "date" Value.date?
    return .int d.weekday
  | isoweekday => do
    let d ← this.receiver "date" Value.date?
    return .int (d.weekday + 1)
  | add | radd => shift site this (args.get "other") 1
  | sub => do
    let d ← this.receiver "date" Value.date?
    match (args.get "other").plainDate? with
    | some e =>
      let t ← .ofCalendar (Duration.ofDays (d.ordinal - e.ordinal))
      return .temporal site (.duration t)
    | none => shift site this (args.get "other") (-1)
  | compare r => .ok (compareBy Value.plainDate? Date.order r this (args.get "other"))

end DateMethod

namespace DatetimeMethod

def shift (site : Identity) (this other : Value) (sign : Int) : Outcome Value :=
  match other.duration? with
  | none => .ok .notImplemented
  | some t => do
    let x ← this.receiver "datetime" Value.datetime?
    let moved ← .ofCalendar (x.addMicros (t.micros * sign))
    return .temporal site (.datetime moved)

def order (a b : DateTime) : Ordering :=
  Ord.compare a.micros b.micros

def run (host : Host) (site : Identity) (m : DatetimeMethod) (this : Value) (args : Bound) :
    Outcome Value :=
  match m with
  | now | today => .ok (.temporal site (.datetime host.localTime))
  | utcnow => .ok (.temporal site (.datetime host.utc))
  | combine =>
    match (args.get "date").date? with
    | none => .error (.type .combineDate)
    | some d =>
      match (args.get "time").clock? with
      | none => .error (.type .combineTime)
      | some c => .ok (.temporal site (.datetime { date := d, clock := c }))
  | strftime => do
    let t ← this.receiver "datetime" Value.datetime?
    let layout ← args.layout
    return .str (← .ofCalendar (t.format layout))
  | isoformat => do
    let t ← this.receiver "datetime" Value.datetime?
    return .str (t.iso ((args.get "sep").text?.getD "T"))
  | str => do
    let t ← this.receiver "datetime" Value.datetime?
    return .str (t.iso " ")
  | repr => do
    let t ← this.receiver "datetime" Value.datetime?
    return .str t.callText
  | replace => do
    let t ← this.receiver "datetime" Value.datetime?
    let d ← DateMethod.replaced t.date args
    let hour ← args.integerOr "hour" t.clock.hour
    let minute ← args.integerOr "minute" t.clock.minute
    let second ← args.integerOr "second" t.clock.second
    let micro ← args.integerOr "microsecond" t.clock.micro
    let c ← .ofCalendar (Clock.ofFields hour minute second micro)
    return .temporal site (.datetime { date := d, clock := c })
  | date => do
    let t ← this.receiver "datetime" Value.datetime?
    return .temporal site (.date t.date)
  | time => do
    let t ← this.receiver "datetime" Value.datetime?
    return .temporal site (.time t.clock)
  | add | radd => shift site this (args.get "other") 1
  | sub => do
    let t ← this.receiver "datetime" Value.datetime?
    match (args.get "other").datetime? with
    | some u =>
      let d ← .ofCalendar (Duration.ofMicros (t.micros - u.micros))
      return .temporal site (.duration d)
    | none => shift site this (args.get "other") (-1)
  | hash => do
    let t ← this.receiver "datetime" Value.datetime?
    return .str (t.iso "T")
  | compare r => .ok (compareBy Value.datetime? order r this (args.get "other"))

end DatetimeMethod

def TimeMethod.run (m : TimeMethod) (this : Value) (args : Bound) : Outcome Value :=
  match m with
  | strftime => do
    let c ← this.receiver "time" Value.clock?
    let layout ← args.layout
    return .str (← .ofCalendar (c.format layout))
  | isoformat | str | hash => do
    let c ← this.receiver "time" Value.clock?
    return .str c.iso
  | compare r =>
    .ok (compareBy Value.clock? (fun a b => Ord.compare a.micros b.micros) r this
      (args.get "other"))

namespace DurationMethod

/-- A duration computed from the microseconds of two others. -/
def combine (site : Identity) (op : Int → Int → Int) (this other : Value) : Outcome Value :=
  match other.duration? with
  | none => .ok .notImplemented
  | some b => do
    let a ← this.receiver "timedelta" Value.duration?
    return .temporal site (.duration (← .ofCalendar (Duration.ofMicros (op a.micros b.micros))))

/-- A duration computed from the microseconds of another. -/
def change (site : Identity) (op : Int → Int) (this : Value) : Outcome Value := do
  let a ← this.receiver "timedelta" Value.duration?
  return .temporal site (.duration (← .ofCalendar (Duration.ofMicros (op a.micros))))

def scale (site : Identity) (this other : Value) : Outcome Value :=
  match other.float? with
  | none => .ok .notImplemented
  | some x => do
    let a ← this.receiver "timedelta" Value.duration?
    return .temporal site (.duration (← .ofCalendar (a.scale x)))

/-- A duration divided by a duration or by a number. -/
def divide (site : Identity) (floor : Bool) (this other : Value) : Outcome Value := do
  let a ← this.receiver "timedelta" Value.duration?
  match other.duration? with
  | some b =>
    if b.micros = 0 then throw (.division .duration)
    return if floor then .int (a.quotient b) else .number (a.ratio b)
  | none =>
    match other.float? with
    | none => return .notImplemented
    | some x =>
      if x == 0.0 then throw (.division .duration)
      return .temporal site (.duration (← .ofCalendar (a.divide floor x)))

def run (site : Identity) (m : DurationMethod) (this : Value) (args : Bound) : Outcome Value :=
  match m with
  | add => combine site (· + ·) this (args.get "other")
  | radd => combine site (fun a b => b + a) this (args.get "other")
  | sub => combine site (· - ·) this (args.get "other")
  | rsub => combine site (fun a b => b - a) this (args.get "other")
  | neg => change site (- ·) this
  | pos => change site id this
  | abs => change site (fun n => (n.natAbs : Int)) this
  | mul | rmul => scale site this (args.get "other")
  | div => divide site false this (args.get "other")
  | floordiv => divide site true this (args.get "other")
  | totalSeconds => do
    let a ← this.receiver "timedelta" Value.duration?
    return .number a.totalSeconds
  | nonzero => do
    let a ← this.receiver "timedelta" Value.duration?
    return .bool (a.micros ≠ 0)
  | hash => do
    let a ← this.receiver "timedelta" Value.duration?
    return .str (toString a.micros)
  | str => do
    let a ← this.receiver "timedelta" Value.duration?
    return .str a.text
  | repr => do
    let a ← this.receiver "timedelta" Value.duration?
    return .str a.callText
  | compare r =>
    .ok (compareBy Value.duration? (fun a b => Ord.compare a.micros b.micros) r this
      (args.get "other"))

end DurationMethod

namespace OffsetMethod

/-- A date changed by an offset; a time of day is kept. -/
def change (site : Identity) (o : Outcome Offset) (other : Value) : Outcome Value :=
  match other with
  | .temporal _ (.date d) => do
    return .temporal site (.date (← .ofCalendar ((← o).apply d)))
  | .temporal _ (.datetime t) => do
    return .temporal site (.datetime { t with date := ← .ofCalendar ((← o).apply t.date) })
  | _ => .ok .notImplemented

def run (site : Identity) (m : OffsetMethod) (this : Value) (args : Bound) : Outcome Value :=
  match m with
  | add | radd => change site this.offsetReceiver (args.get "other")
  | rsub => do
    let o ← this.offsetReceiver
    let turned ← .ofCalendar o.negate
    change site (.ok turned) (args.get "other")
  | neg => do
    let o ← this.offsetReceiver
    return .temporal site (.offset (← .ofCalendar o.negate))
  | repr => do
    let o ← this.offsetReceiver
    return .str o.text

end OffsetMethod

namespace TemporalMethod

def run (host : Host) (site : Identity) (m : TemporalMethod) (this : Value) (args : Bound) :
    Outcome Value :=
  match m with
  | date m => m.run host site this args
  | datetime m => m.run host site this args
  | time m => m.run this args
  | duration m => m.run site this args
  | offset m => m.run site this args

/-- The parameters of a method that replaces parts of a date. -/
def replaceDate : Signature :=
  ((({} : Signature).optional "year" .null).optional "month" .null).optional "day" .null

/-- The parameters of a method of calendar values. -/
def signature : TemporalMethod → Signature
  | date m =>
    match m with
    | .strftime => .ofNames ["format"]
    | .replace => replaceDate
    | .add | .radd | .sub | .compare _ => .ofNames ["other"]
    | _ => {}
  | datetime m =>
    match m with
    | .strftime => .ofNames ["format"]
    | .combine => .ofNames ["date", "time"]
    | .isoformat => ({} : Signature).optional "sep" (.str "T")
    | .replace =>
      ((((replaceDate.optional "hour" .null).optional "minute" .null).optional "second"
        .null).optional "microsecond" .null).optional "tzinfo" .null
    | .add | .radd | .sub | .compare _ => .ofNames ["other"]
    | _ => {}
  | time m =>
    match m with
    | .strftime => .ofNames ["format"]
    | .compare _ => .ofNames ["other"]
    | _ => {}
  | duration m =>
    match m with
    | .add | .radd | .sub | .rsub | .mul | .rmul | .div | .floordiv | .compare _ =>
      .ofNames ["other"]
    | _ => {}
  | offset m =>
    match m with
    | .add | .radd | .rsub => .ofNames ["other"]
    | _ => {}

end TemporalMethod

namespace Temporal

/-- The parameters of a time of day, with midnight as default. -/
def clockSignature (s : Signature) : Signature :=
  ((((s.optional "hour" (.int 0)).optional "minute" (.int 0)).optional "second" (.int 0)).optional
    "microsecond" (.int 0)).optional "tzinfo" .null

/-- The parts of a duration, in the order of its parameters. -/
def durationNames : List String :=
  ["days", "seconds", "microseconds", "milliseconds", "minutes", "hours", "weeks"]

/-- The parameters with which a calendar value is made. -/
def creation? : Class → Option Signature
  | .date => some (.ofNames ["year", "month", "day"])
  | .datetime => some (clockSignature (.ofNames ["year", "month", "day"]))
  | .time => some (clockSignature {})
  | .timedelta => some (durationNames.foldl (fun s n => s.optional n (.int 0)) {})
  | .relativedelta =>
    let absolute := ["year", "month", "day", "weekday", "yearday", "nlyearday"]
    let relative := ["years", "months", "weeks", "days", "leapdays"]
    some (relative.foldl (fun s n => s.optional n (.int 0))
      (absolute.foldl (fun s n => s.optional n .null) ({} : Signature).keywordOnly))
  | _ => none

def dateOf (args : Bound) : Outcome Date := do
  let year ← args.integer "year"
  let month ← args.integer "month"
  let day ← args.integer "day"
  .ofCalendar (Date.ofCalendar year month day)

def clockOf (args : Bound) : Outcome Clock := do
  let hour ← args.integer "hour"
  let minute ← args.integer "minute"
  let second ← args.integer "second"
  let micro ← args.integer "microsecond"
  .ofCalendar (Clock.ofFields hour minute second micro)

def durationOf (args : Bound) : Outcome Duration := do
  let weeks ← args.durationPart "weeks"
  let days ← args.durationPart "days"
  let hours ← args.durationPart "hours"
  let minutes ← args.durationPart "minutes"
  let seconds ← args.durationPart "seconds"
  let milliseconds ← args.durationPart "milliseconds"
  let microseconds ← args.durationPart "microseconds"
  .ofCalendar (Duration.ofParts
    { weeks, days, hours, minutes, seconds, milliseconds, microseconds })

/-- The offset that arguments ask for. A day counted without leap years makes the
other day of the year unread. -/
def offsetOf (args : Bound) : Outcome Offset := do
  let year ← args.integer? "year"
  let month ← args.integer? "month"
  let day ← args.integer? "day"
  let weekday ← args.integer? "weekday"
  let years ← args.integerOr "years" 0
  let months ← args.integerOr "months" 0
  let days ← args.integerOr "days" 0
  let weeks ← args.integerOr "weeks" 0
  let days ← .ofCalendar (Offset.wholeDays days weeks)
  let leapdays ← args.integerOr "leapdays" 0
  let nlyearday ← args.integer? "nlyearday"
  let yearday ← if nlyearday.isSome then pure none else args.integer? "yearday"
  .ofCalendar (Offset.ofParts
    { year, month, day, weekday, yearday, nlyearday, years, months, days, leapdays })

def create (c : Class) (args : Bound) : Outcome (Option Temporal) :=
  match c with
  | .date => do return some (.date (← dateOf args))
  | .datetime => do
    let d ← dateOf args
    return some (.datetime { date := d, clock := ← clockOf args })
  | .time => do return some (.time (← clockOf args))
  | .timedelta => do return some (.duration (← durationOf args))
  | .relativedelta => do return some (.offset (← offsetOf args))
  | _ => .ok none

end Temporal

namespace InstanceMethod

def signature (host : Host) : InstanceMethod → Signature
  | temporal m => m.signature
  | .host owner name => ((host.method? owner name).map (·.signature)).getD {}

/-- Runs an instance method with bound arguments. -/
def run (host : Host) (site : Identity) (m : InstanceMethod) (this : Value) (args : Bound) :
    Outcome Value :=
  match m with
  | temporal m => m.run host site this args
  | .host owner name => host.callMethod owner name site this args

/-- Calls an instance method with positional arguments. -/
def call (host : Host) (site : Identity) (m : InstanceMethod) (this : Value) (args : List Value) :
    Outcome Value := do
  let bound ← (m.signature host).bind m.name args []
  m.run host site this bound

end InstanceMethod

end FilterLang
