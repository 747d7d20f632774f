/-!
What can be wrong with a date, a time of day or a duration.
-/

namespace FilterLang

/-- A calendar value that does not exist. -/
inductive CalendarError where
  | year (year : Int)
  | month
  | day
  | hour
  | minute
  | second
  | microsecond
  /-- A date moved out of the years that there are. -/
  | dateRange
  /-- A duration of too many days. -/
  | durationDays (days : Int)
  /-- A duration computed from a number that is not finite. -/
  | notFinite
  /-- A day of the year that no year has. -/
  | yearDay (n : Int)
  /-- An offset of more months than a year has. -/
  | relativeMonths
  /-- A letter after a percent sign that stands for nothing. -/
  | formatCode (code : Char)
  /-- A computed number of years, months or days that does not fit into 64 bits. -/
  | overflow
deriving DecidableEq

def CalendarError.message : CalendarError → String
  | year y => "year " ++ toString y ++ " is out of range"
  | month => "month must be in 1..12"
  | day => "day is out of range for month"
  | hour => "hour must be in 0..23"
  | minute => "minute must be in 0..59"
  | second => "second must be in 0..59"
  | microsecond => "microsecond must be in 0..999999"
  | dateRange => "date value is out of range"
  | durationDays days => "days=" ++ toString days ++ "; must have magnitude <= 999999999"
  | notFinite => "cannot convert float NaN or infinity to timedelta"
  | yearDay n => "invalid year day (" ++ toString n ++ ")"
  | relativeMonths => "Can only use relative months between -12 and +12"
  | formatCode code => "No known conversion for %" ++ String.singleton code
  | overflow => "arithmetic overflow"

end FilterLang
