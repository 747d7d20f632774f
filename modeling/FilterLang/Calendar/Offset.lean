import FilterLang.Calendar.Duration
/-!
Offsets: calendar-aware changes of a date.

The absolute parts of an offset replace those of the date, the relative ones move
it. Years and months are moved first, the day being cut down to the length of the
month that results; then days are added; then the date moves on to the next given
weekday.

Assumed: integers have 64 bits. What happens when a sum does not fit is up to the
machine; here it is the fault `overflow`, in the order of the computation.

Operations: `construct` is `wholeDays` and `ofParts`, `negate` is `negate`, and
`apply` is `apply`, where the date is put together again and moved by
`Date.ofCalendar` and `Date.addDays`.
-/

namespace FilterLang

/-- A change of a date. -/
structure Offset where
  year : Option Int := none
  month : Option Int := none
  day : Option Int := none
  weekday : Option Int := none
  years : Int := 0
  months : Int := 0
  days : Int := 0
  /-- Days added when the date falls after February in a leap year. -/
  leapdays : Int := 0
  months_range : -11 ≤ months ∧ months ≤ 11 := by omega
deriving DecidableEq

namespace Offset

/-- The last day of each month, counted through the year. -/
def yearDays : List Int :=
  [31, 59, 90, 120, 151, 181, 212, 243, 273, 304, 334, 366]

/-- The month and the day of the month of a day of the year: the first month whose
last day is not before it. -/
def monthAndDay? (day : Int) : (before : Int) → (month : Int) → List Int → Option (Int × Int)
  | _, _, [] => none
  | before, month, last :: rest =>
    if day ≤ last then some (month, day - before) else monthAndDay? day last (month + 1) rest

/-- What an offset is made from. -/
structure Parts where
  year : Option Int
  month : Option Int
  day : Option Int
  weekday : Option Int
  yearday : Option Int
  nlyearday : Option Int
  years : Int
  months : Int
  days : Int
  leapdays : Int

/-- A whole number as the language can hold it: a large one is rounded. -/
def held (n : Int) : Int :=
  if -Number.maxExact ≤ n ∧ n ≤ Number.maxExact then n
  else (Number.integral? (Number.ofInt n)).getD 0

/-- An integer that has to fit into 64 bits. -/
def fitted (n : Int) : Except CalendarError Int :=
  match Number.fit? 64 n with
  | some n => .ok n
  | none => .error .overflow

/-- The days of a number of days and of weeks. -/
def wholeDays (days weeks : Int) : Except CalendarError Int := do
  fitted (days + (← fitted (weeks * 7)))

/-- The years and the months of a number of months, both with its sign. -/
def carryMonths (months : Int) : Int × Int :=
  (months.tdiv 12, months.tmod 12)

/-- The month and the day that are given; a day of the year other than zero sets
both. -/
def Parts.monthAndDay (p : Parts) : Except CalendarError (Option Int × Option Int) :=
  match p.nlyearday.or p.yearday with
  | none => .ok (p.month, p.day)
  | some n =>
    if n = 0 then .ok (p.month, p.day)
    else match monthAndDay? n 0 1 yearDays with
      | some (month, day) => .ok (some month, some day)
      | none => .error (.yearDay n)

/-- The offset made of these parts. Unless a day of the year is counted as if there
were no leap years, a day past February leaves out the leap day. -/
def ofParts (p : Parts) : Except CalendarError Offset := do
  let leapdays := match p.nlyearday, p.yearday with
    | none, some n => if n > 59 then -1 else p.leapdays
    | _, _ => p.leapdays
  let (month, day) ← p.monthAndDay
  let _ ← fitted p.months.natAbs
  let carry := carryMonths p.months
  let years ← fitted (p.years + carry.1)
  have bound : -11 ≤ carry.2 ∧ carry.2 ≤ 11 := by
    have h1 := Int.tmod_lt_of_pos p.months (show (0 : Int) < 12 by decide)
    have h2 := Int.lt_tmod_of_pos p.months (show (0 : Int) < 12 by decide)
    simp only [carry, carryMonths]
    omega
  return {
    year := p.year, month, day, weekday := p.weekday
    years := held years, months := carry.2, days := held p.days, leapdays
    months_range := bound }

/-- The offset with years, months and days the other way. -/
def negate (o : Offset) : Except CalendarError Offset := do
  let years ← fitted (-o.years)
  let days ← fitted (-o.days)
  return { o with
    years := held years, months := -o.months, days := held days
    months_range := by have := o.months_range; omega }

/-- An absolute part, where zero counts as not given. -/
def given (part : Option Int) (own : Int) : Int :=
  match part with
  | some n => if n = 0 then own else n
  | none => own

/-- A year and a month moved by at most eleven months. -/
def moveMonths (year month months : Int) : Except CalendarError (Int × Int) := do
  if months = 0 then return (year, month)
  let month ← fitted (month + months)
  if month > 12 then return (← fitted (year + 1), month - 12)
  if month < 1 then return (← fitted (year - 1), month + 12)
  return (year, month)

def apply (o : Offset) (d : Date) : Except CalendarError Date := do
  let year ← fitted (given o.year d.year + o.years)
  if o.months ≠ 0 ∧ ¬ (1 ≤ o.months.natAbs ∧ o.months.natAbs ≤ 12) then throw .relativeMonths
  let (year, month) ← moveMonths year (given o.month d.month) o.months
  if Number.fit? 32 year = none then throw (.year year)
  if month < 1 ∨ month > 12 then throw .month
  let day := min (given o.day d.day) (daysInMonth year month.toNat)
  let leaps := o.leapdays ≠ 0 ∧ month > 2 ∧ isLeap year
  let days ← if leaps then fitted (o.days + o.leapdays) else pure o.days
  let replaced ← Date.ofCalendar year month day
  let shift ← Duration.ofDays days
  let moved ← replaced.addDays shift.days
  match o.weekday with
  | none => return moved
  | some w => moved.addDays ((← fitted (7 - moved.weekday + w)) % 7)

/-- A relative part with its sign, unless it is zero. -/
def relativeText (name : String) (n : Int) : List String :=
  if n = 0 then []
  else [name ++ "=" ++ (if n > 0 then "+" else "") ++ toString n]

def absoluteText (name : String) (part : Option Int) : List String :=
  match part with
  | some n => [name ++ "=" ++ toString n]
  | none => []

def text (o : Offset) : String :=
  let parts := relativeText "years" o.years ++ relativeText "months" o.months ++
    relativeText "days" o.days ++ relativeText "leapdays" o.leapdays ++
    absoluteText "year" o.year ++ absoluteText "month" o.month ++ absoluteText "day" o.day ++
    absoluteText "weekday" o.weekday
  "relativedelta(" ++ String.intercalate ", " parts ++ ")"

end Offset

end FilterLang
