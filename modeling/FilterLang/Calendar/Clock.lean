import FilterLang.Calendar.Date
/-!
Times of day to the microsecond, and a date together with a time of day.

A moment is moved by moving the number of microseconds since the start of the
calendar.

Assumed: days have 24 hours without leap seconds, and the sum of a moment and a
number of microseconds is the moment so many microseconds later, if there is one in
the years 1 to 9999 (`DateTime.ofMicros?`).

Operations: `clock_time` is `Clock.ofFields`, `iso_time` is `Clock.iso`, `shift` is
`DateTime.addMicros` (of the microseconds of a duration with their sign), and
`iso_datetime` is `DateTime.iso`.
-/

namespace FilterLang

/-- A time of day. -/
structure Clock where
  hour : Nat
  minute : Nat
  second : Nat
  micro : Nat
  hour_range : hour < 24
  minute_range : minute < 60
  second_range : second < 60
  micro_range : micro < 1000000
deriving DecidableEq

namespace Clock

/-- The time of day with these parts. The first part out of range is the fault. -/
def ofFields (hour minute second micro : Int) : Except CalendarError Clock :=
  if hh : 0 ≤ hour ∧ hour ≤ 23 then
    if hm : 0 ≤ minute ∧ minute ≤ 59 then
      if hs : 0 ≤ second ∧ second ≤ 59 then
        if hu : 0 ≤ micro ∧ micro ≤ 999999 then
          .ok {
            hour := hour.toNat, minute := minute.toNat
            second := second.toNat, micro := micro.toNat
            hour_range := by omega
            minute_range := by omega
            second_range := by omega
            micro_range := by omega }
        else .error .microsecond
      else .error .second
    else .error .minute
  else .error .hour

def midnight : Clock :=
  { hour := 0, minute := 0, second := 0, micro := 0
    hour_range := by decide, minute_range := by decide
    second_range := by decide, micro_range := by decide }

def micros (c : Clock) : Nat :=
  ((c.hour * 60 + c.minute) * 60 + c.second) * 1000000 + c.micro

/-- The time of day a number of microseconds after midnight, whole days left out. -/
def ofMicros (n : Nat) : Clock :=
  { hour := n / 3600000000 % 24
    minute := n / 60000000 % 60
    second := n / 1000000 % 60
    micro := n % 1000000
    hour_range := Nat.mod_lt _ (by decide)
    minute_range := Nat.mod_lt _ (by decide)
    second_range := Nat.mod_lt _ (by decide)
    micro_range := Nat.mod_lt _ (by decide) }

/-- Hours, minutes and seconds with colons between. -/
def hms (c : Clock) : String :=
  Date.padded 2 c.hour ++ ":" ++ Date.padded 2 c.minute ++ ":" ++ Date.padded 2 c.second

/-- Hours, minutes and seconds, with six digits of microseconds unless there are
none. -/
def iso (c : Clock) : String :=
  if c.micro = 0 then c.hms else c.hms ++ "." ++ Date.padded 6 c.micro

end Clock

structure DateTime where
  date : Date
  clock : Clock
deriving DecidableEq

namespace DateTime

def microsPerDay : Int := 86400000000

/-- The microseconds since the day before the first of the calendar. -/
def micros (t : DateTime) : Int :=
  t.date.ordinal * microsPerDay + t.clock.micros

/-- The moment a number of microseconds after the day before the first of the
calendar, if it lies in the years 1 to 9999. -/
def ofMicros? (n : Int) : Option DateTime :=
  (Date.ofOrdinal? (n / microsPerDay)).map fun d =>
    { date := d, clock := Clock.ofMicros (n % microsPerDay).toNat }

/-- A moment moved by a number of microseconds, which has 64 bits. -/
def addMicros (t : DateTime) (micros : Int) : Except CalendarError DateTime :=
  match (Number.fit? 64 micros).bind fun n => ofMicros? (t.micros + n) with
  | some t => .ok t
  | none => .error .dateRange

def iso (separator : String) (t : DateTime) : String :=
  t.date.iso ++ separator ++ t.clock.iso

/-- Date and time of day without microseconds. -/
def text (t : DateTime) : String :=
  t.date.iso ++ " " ++ t.clock.hms

end DateTime

end FilterLang
