import FilterLang.Calendar.Clock
/-!
Dates and times written after a format.

In a format, a percent sign with one of the letters `Y m d H M S` stands for that
part in digits, and a doubled percent sign for itself.
-/

namespace FilterLang

/-- The part of a moment that a format letter names. -/
def DateTime.field? (t : DateTime) (code : Char) : Option String :=
  match code with
  | 'Y' => some (Date.padded 4 t.date.year)
  | 'm' => some (Date.padded 2 t.date.month)
  | 'd' => some (Date.padded 2 t.date.day)
  | 'H' => some (Date.padded 2 t.clock.hour)
  | 'M' => some (Date.padded 2 t.clock.minute)
  | 'S' => some (Date.padded 2 t.clock.second)
  | _ => none

def DateTime.fill (t : DateTime) : List Char → Except CalendarError (List Char)
  | '%' :: '%' :: rest => do return '%' :: (← t.fill rest)
  | '%' :: code :: rest =>
    if code.isAlpha then
      match t.field? code with
      | some field => do return field.toList ++ (← t.fill rest)
      | none => .error (.formatCode code)
    else do return '%' :: (← t.fill (code :: rest))
  | c :: rest => do return c :: (← t.fill rest)
  | [] => .ok []
termination_by s => s.length

def DateTime.format (t : DateTime) (layout : String) : Except CalendarError String := do
  return String.ofList (← t.fill layout.toList)

/-- The day on which a time of day is written when a format asks for its date. -/
def Clock.placeholderDate : Date :=
  { year := 1900, month := 1, day := 1
    year_range := by decide, month_range := by decide, day_range := by decide }

def Clock.format (c : Clock) (layout : String) : Except CalendarError String :=
  DateTime.format { date := Clock.placeholderDate, clock := c } layout

def Date.format (d : Date) (layout : String) : Except CalendarError String :=
  DateTime.format { date := d, clock := Clock.midnight } layout

end FilterLang
