import FilterLang.Calendar.Error
import FilterLang.Number.Binary
import FilterLang.Text.Padding
/-!
Dates of the Gregorian calendar, run back to the year 1.

A `Date` carries the proof that its day exists. Every date has a Julian day number,
by which it is moved, and an ordinal, the number of days up to and including it
from the first of January of the year 1.

Assumed: the conversions between dates and Julian day numbers are those of the
proleptic Gregorian calendar (`julianDay`, `ofJulianDay?`), and no day number that
the calendar refuses lies in the years 1 to 9999. They are computed on ordinals here
(`ofOrdinal?`), which are Julian day numbers less `ordinalOffset`.

Operations: `calendar_date` is `ofCalendar`, `days_in_month` is `daysInMonth`,
`ordinal` is `ordinal`, `replace_date` is `replace`, `add_days` is `addDays` (of the
whole days of a duration with their sign), and `iso_date` is `iso`.
-/

namespace FilterLang

/-- Whether a year has a 29th of February. -/
def isLeap (year : Int) : Bool :=
  year % 4 == 0 && (year % 100 != 0 || year % 400 == 0)

def daysInMonth (year : Int) (month : Nat) : Nat :=
  if month = 2 then (if isLeap year then 29 else 28)
  else if month = 4 ∨ month = 6 ∨ month = 9 ∨ month = 11 then 30
  else 31

/-- A date of the years 1 to 9999. -/
structure Date where
  year : Nat
  month : Nat
  day : Nat
  year_range : 1 ≤ year ∧ year ≤ 9999
  month_range : 1 ≤ month ∧ month ≤ 12
  day_range : 1 ≤ day ∧ day ≤ daysInMonth year month
deriving DecidableEq

namespace Date

/-- The date with this year, month and day. Of several faults the year's comes
first, then the month's. -/
def ofCalendar (year month day : Int) : Except CalendarError Date :=
  if hy : 1 ≤ year ∧ year ≤ 9999 then
    if hm : 1 ≤ month ∧ month ≤ 12 then
      if hd : 1 ≤ day ∧ day ≤ daysInMonth year month.toNat then
        .ok {
          year := year.toNat, month := month.toNat, day := day.toNat
          year_range := by omega
          month_range := by omega
          day_range := by
            have : ((year.toNat : Nat) : Int) = year := by omega
            rw [this]
            omega }
      else .error .day
    else .error .month
  else .error (.year year)

def daysBeforeYear (year : Int) : Int :=
  let y := year - 1
  365 * y + y / 4 - y / 100 + y / 400

/-- The number of days before the first of a month in its year. -/
def daysBeforeMonth (year : Int) : Nat → Nat
  | 0 => 0
  | 1 => 0
  | m + 1 => daysBeforeMonth year m + daysInMonth year m

/-- The Julian day number of the day before the first day of the calendar. -/
def ordinalOffset : Int := 1721425

def julianDay (d : Date) : Int :=
  ordinalOffset + (daysBeforeYear d.year + daysBeforeMonth d.year d.month + d.day)

/-- The number of days from the first day of the calendar to a date, both
counted. -/
def ordinal (d : Date) : Int :=
  d.julianDay - ordinalOffset

/-- The year in which the day with an ordinal lies: the quotient by the mean
length of a year is off by one at most. -/
def yearOfOrdinal (n : Int) : Int :=
  let y := (n - 1) * 400 / 146097 + 1
  if n ≤ daysBeforeYear y then y - 1
  else if daysBeforeYear (y + 1) < n then y + 1
  else y

/-- The month at or before `month` in which a day of the year lies. -/
def monthOfDay (year : Int) (day : Int) : Nat → Nat
  | 0 => 1
  | m + 1 => if (daysBeforeMonth year (m + 1) : Int) < day then m + 1 else monthOfDay year day m

/-- The date with an ordinal, if it lies in the years 1 to 9999. -/
def ofOrdinal? (n : Int) : Option Date :=
  let year := yearOfOrdinal n
  let dayOfYear := n - daysBeforeYear year
  let month := monthOfDay year dayOfYear 12
  match ofCalendar year month (dayOfYear - daysBeforeMonth year month) with
  | .ok d => some d
  | .error _ => none

def ofJulianDay? (n : Int) : Option Date :=
  ofOrdinal? (n - ordinalOffset)

/-- A date moved by a number of days; day numbers have 32 bits. -/
def addDays (d : Date) (days : Int) : Except CalendarError Date :=
  match (Number.fit? 32 (d.julianDay + days)).bind ofJulianDay? with
  | some d => .ok d
  | none => .error .dateRange

/-- The day of the week, Monday being zero. -/
def weekday (d : Date) : Int :=
  (d.ordinal + 6) % 7

def replace (d : Date) (year month day : Option Int) : Except CalendarError Date :=
  ofCalendar (year.getD d.year) (month.getD d.month) (day.getD d.day)

/-- A natural in at least `width` digits. -/
def padded (width n : Nat) : String :=
  Text.padLeft (toString n) width

/-- The date as year, month and day with hyphens between. -/
def iso (d : Date) : String :=
  padded 4 d.year ++ "-" ++ padded 2 d.month ++ "-" ++ padded 2 d.day

def order (a b : Date) : Ordering :=
  (compare a.year b.year).then ((compare a.month b.month).then (compare a.day b.day))

end Date

end FilterLang
