import FilterLang.Calendar.Clock
import FilterLang.Number.Rounding
/-!
Durations: whole numbers of microseconds, at most 999999999 days either way.

A duration is shown as days, seconds and microseconds, of which only the days can
be negative.

Assumed: microseconds are counted in 128 bits, which hold every sum of two durations;
a float is cut to that range before the length is checked (`Number.toInt128`).

Operations: `construct` is `ofParts`, `timedelta` is `ofMicros`, `split` is `days`,
`seconds` and `microseconds`, `scale` is `scale`, `divide` is `divide`, `quotient` and
`ratio`, and `render` is `text`.
-/

namespace FilterLang

def maxDurationDays : Int := 999999999

/-- A duration in microseconds. -/
structure Duration where
  micros : Int
  days_range : -maxDurationDays ≤ micros / DateTime.microsPerDay ∧
    micros / DateTime.microsPerDay ≤ maxDurationDays
deriving DecidableEq

namespace Duration

/-- The duration of a number of microseconds, if it is not too long. -/
def ofMicros (micros : Int) : Except CalendarError Duration :=
  if h : -maxDurationDays ≤ micros / DateTime.microsPerDay ∧
      micros / DateTime.microsPerDay ≤ maxDurationDays then
    .ok { micros, days_range := h }
  else .error (.durationDays (micros / DateTime.microsPerDay))

def ofDays (days : Int) : Except CalendarError Duration :=
  ofMicros (days * DateTime.microsPerDay)

/-- The whole days, rounded down. -/
def days (d : Duration) : Int :=
  d.micros / DateTime.microsPerDay

/-- The whole seconds above the days. -/
def seconds (d : Duration) : Int :=
  d.micros % DateTime.microsPerDay / 1000000

def microseconds (d : Duration) : Int :=
  d.micros % DateTime.microsPerDay % 1000000

def totalSeconds (d : Duration) : Float :=
  Number.ofInt d.micros / 1000000.0

/-- The duration nearest to a number of microseconds. -/
def ofFloat (total : Float) : Except CalendarError Duration :=
  if total.isFinite then ofMicros (Number.toInt128 (Number.round total)) else .error .notFinite

/-- The parts from which a duration is made. -/
structure Parts where
  weeks : Float
  days : Float
  hours : Float
  minutes : Float
  seconds : Float
  milliseconds : Float
  microseconds : Float

/-- The duration made of these parts, to the nearest microsecond. -/
def ofParts (p : Parts) : Except CalendarError Duration :=
  let seconds := p.weeks * 7.0 * 86400.0 + p.days * 86400.0 + p.hours * 3600.0 +
    p.minutes * 60.0 + p.seconds
  ofFloat (seconds * 1000000.0 + p.milliseconds * 1000.0 + p.microseconds)

def scale (d : Duration) (factor : Float) : Except CalendarError Duration :=
  ofFloat (Number.ofInt d.micros * factor)

/-- A duration divided by a number other than zero, to the nearest microsecond or
rounded down. -/
def divide (d : Duration) (floor : Bool) (divisor : Float) : Except CalendarError Duration :=
  let quotient := Number.ofInt d.micros / divisor
  ofMicros (Number.toInt128 (if floor then Number.floor quotient else Number.round quotient))

/-- How often a duration other than zero goes into another, with a remainder that
is never negative. -/
def quotient (a b : Duration) : Int :=
  Number.wrapBits 64 (a.micros / b.micros)

/-- How many times as long as another a duration is. -/
def ratio (a b : Duration) : Float :=
  Number.ofInt a.micros / Number.ofInt b.micros

/-- Days in words, then hours, minutes and seconds, with microseconds if there are
any. -/
def text (d : Duration) : String :=
  let clock := toString (d.seconds / 3600) ++ ":" ++
    Date.padded 2 (d.seconds % 3600 / 60).toNat ++ ":" ++ Date.padded 2 (d.seconds % 60).toNat
  let days :=
    if d.days = 0 then ""
    else toString d.days ++ " day" ++ (if d.days.natAbs = 1 then "" else "s") ++ ", "
  let micros := if d.microseconds = 0 then "" else "." ++ Date.padded 6 d.microseconds.toNat
  days ++ clock ++ micros

end Duration

end FilterLang
