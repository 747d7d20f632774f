import FilterLang.Calendar.Offset
import FilterLang.Proofs.Calendar.Ordinal
import FilterLang.Proofs.Fallible
import FilterLang.Proofs.Number.Nearest
import Mathlib
/-!
What an offset does to a date.

A shift moves a date by months, by days and on to a weekday. Where it leads (`Leads`), and when it
leaves the calendar (`Leaves`), is said without the steps of the computation: months are counted
through the years, days by ordinals, and the weekday is the first one that comes. An offset with
no absolute part computes this (`apply_answered`), although it splits the months into years and a
rest when it is made and carries at most one year when it is applied.

A part of an offset that is too large to be held exactly is rounded. Such a part leads out of the
calendar before it is rounded and after it (`Held`). No sum leaves the 64 bits that integers have,
as long as the parts stay far below them (`Within`).
-/

namespace FilterLang

open Fallible

/-- A move of a date: by months, then by days, then on to a weekday. -/
structure Shift where
  months : Int
  days : Int
  weekday : Option Int

namespace Shift

/-- The shift by as many months and days the other way, on to the same weekday. -/
def negate (s : Shift) : Shift :=
  { s with months := -s.months, days := -s.days }

variable (s : Shift) (d : Date)

/-- The month that a date is moved to, counted from January of the year zero. -/
def month : Int :=
  12 * d.year + d.month - 1 + s.months

/-- A date has the month that another is moved to, and its day as far as the month has it. -/
structure Clamps (c : Date) : Prop where
  year : (c.year : Int) = s.month d / 12
  month : (c.month : Int) = s.month d % 12 + 1
  day : c.day = min d.day (daysInMonth c.year c.month)

/-- A date is the first on a weekday, from another on. -/
structure Reaches (w : Int) (m e : Date) : Prop where
  later : m.ordinal ≤ e.ordinal
  soon : e.ordinal ≤ m.ordinal + 6
  weekday : e.weekday = w % 7
  first : ∀ f : Date, m.ordinal ≤ f.ordinal → f.ordinal < e.ordinal → f.weekday ≠ w % 7

/-- A date is where a moved date ends after the move on to a weekday. -/
def Ends (m e : Date) : Prop :=
  match s.weekday with
  | none => e = m
  | some w => Reaches w m e

/-- A shift leads from one date to another. -/
def Leads (e : Date) : Prop :=
  s.days.natAbs ≤ 999999999 ∧
    ∃ c m : Date, s.Clamps d c ∧ m.ordinal = c.ordinal + s.days ∧ s.Ends m e

/-- A shift leads out of the calendar: to a year that it does not have, by more days than a
duration has, past its first or last day, or to a weekday that does not come any more. -/
def Leaves : Prop :=
  ¬ (1 ≤ s.month d / 12 ∧ s.month d / 12 ≤ 9999) ∨
  999999999 < s.days.natAbs ∨
  ∃ c, s.Clamps d c ∧
    (¬ (1 ≤ c.ordinal + s.days ∧ c.ordinal + s.days ≤ Date.maxOrdinal) ∨
      ∃ (m : Date) (w : Int), m.ordinal = c.ordinal + s.days ∧ s.weekday = some w ∧
        ∀ e : Date, m.ordinal ≤ e.ordinal → e.weekday ≠ w % 7)

/-- How a shift has to be answered. -/
inductive Answered : Except CalendarError Date → Prop
  | leads {e : Date} (h : s.Leads d e) : Answered (.ok e)
  | leaves {fault : CalendarError} (h : s.Leaves d) (hfault : fault ≠ .overflow) :
    Answered (.error fault)

variable {s d}

/-! ## One answer -/

theorem Clamps.unique {c c' : Date} (h : s.Clamps d c) (h' : s.Clamps d c') : c = c' := by
  have hyear : c.year = c'.year := by
    have := h.year
    have := h'.year
    omega
  have hmonth : c.month = c'.month := by
    have := h.month
    have := h'.month
    omega
  exact Date.ext hyear hmonth (by rw [h.day, h'.day, hyear, hmonth])

theorem Reaches.unique {w : Int} {m e e' : Date} (h : Reaches w m e) (h' : Reaches w m e') :
    e = e' := by
  rcases lt_trichotomy e.ordinal e'.ordinal with hlt | heq | hlt
  · exact absurd h.weekday (h'.first e h.later hlt)
  · exact Date.ordinal_injective heq
  · exact absurd h'.weekday (h.first e' h'.later hlt)

theorem Ends.unique {m e e' : Date} (h : s.Ends m e) (h' : s.Ends m e') : e = e' := by
  rw [Ends] at h h'
  cases hweekday : s.weekday with
  | none =>
    rw [hweekday] at h h'
    exact h.trans h'.symm
  | some w =>
    rw [hweekday] at h h'
    exact h.unique h'

/-- A shift leads to one date. -/
theorem Leads.unique {e e' : Date} (h : s.Leads d e) (h' : s.Leads d e') : e = e' := by
  obtain ⟨-, c, m, hc, hm, he⟩ := h
  obtain ⟨-, c', m', hc', hm', he'⟩ := h'
  cases hc.unique hc'
  cases Date.ordinal_injective (hm.trans hm'.symm)
  exact he.unique he'

/-- A shift that leads to a date does not leave the calendar. -/
theorem Leads.not_leaves {e : Date} (h : s.Leads d e) : ¬ s.Leaves d := by
  obtain ⟨hdays, c, m, hc, hm, he⟩ := h
  rintro (hyear | hlong | ⟨c', hc', hout⟩)
  · have := hc.year
    have := c.year_range
    omega
  · omega
  · cases hc.unique hc'
    rcases hout with hrange | ⟨m', w, hm', hweekday, hnever⟩
    · rw [← hm] at hrange
      exact hrange m.ordinal_bounds
    · cases Date.ordinal_injective (hm.trans hm'.symm)
      rw [Ends, hweekday] at he
      exact hnever e he.later he.weekday

end Shift

/-! ## Parts that are held -/

namespace Offset

theorem fitted_eq_ok {n : Int} (h : n.natAbs < 2 ^ 63) : fitted n = .ok n := by
  rw [fitted, Number.fit?_of_natAbs_lt (by rw [Number.pow2_63]; exact h)]

/-- A number is held as it is, or both are too large for the calendar. -/
def Held (n held : Int) : Prop :=
  held = n ∨ 2 ^ 53 ≤ n.natAbs ∧ 2 ^ 53 ≤ held.natAbs

theorem Held.neg {n m : Int} (h : Held n m) : Held (-n) (-m) := by
  unfold Held at h ⊢
  omega

theorem Held.trans {n m k : Int} (h : Held n m) (h' : Held m k) : Held n k := by
  unfold Held at h h' ⊢
  omega

theorem held_spec {n : Int} (h : n.natAbs < 2 ^ 62) :
    Held n (held n) ∧ (held n).natAbs ≤ 2 * n.natAbs := by
  have hmax : Number.maxExact = 2 ^ 53 := rfl
  rw [held, hmax]
  split
  · exact ⟨Or.inl rfl, by omega⟩
  · next hlarge =>
    have hlow : 2 ^ 53 ≤ n.natAbs := by omega
    obtain ⟨r, hr, hlarge, hdouble⟩ := Number.natAbs_integral?_ofInt hlow h
    rw [hr]
    exact ⟨Or.inr ⟨hlow, hlarge⟩, hdouble⟩

/-- An offset makes a shift: it has no absolute part, and holds the relative ones. -/
structure Makes (o : Offset) (s : Shift) : Prop where
  year : o.year = none
  month : o.month = none
  day : o.day = none
  leapdays : o.leapdays = 0
  weekday : o.weekday = s.weekday
  months : ∃ years, 12 * years + o.months = s.months ∧ Held years o.years
  days : Held s.days o.days

/-- The parts of an offset that are added to those of a date are within a bound. -/
structure Within (o : Offset) (bound : Nat) : Prop where
  years : o.years.natAbs ≤ bound
  days : o.days.natAbs ≤ bound
  weekday : ∀ w ∈ o.weekday, w.natAbs ≤ bound

theorem Within.mono {o : Offset} {bound bound' : Nat} (h : o.Within bound) (hle : bound ≤ bound') :
    o.Within bound' :=
  ⟨h.years.trans hle, h.days.trans hle, fun w hw => (h.weekday w hw).trans hle⟩

/-- An offset whose parts have two bits to spare can be turned around. -/
theorem Makes.negate {o : Offset} {s : Shift} (h : o.Makes s) {bound : Nat}
    (hbound : bound < 2 ^ 62) (hwithin : o.Within bound) :
    ∃ o', o.negate = .ok o' ∧ o'.Makes s.negate ∧ o'.Within (2 * bound) := by
  obtain ⟨years, hmonths, hyears⟩ := h.months
  have hwithinYears := hwithin.years
  have hwithinDays := hwithin.days
  obtain ⟨hheldYears, hdoubleYears⟩ := held_spec (n := -o.years) (by omega)
  obtain ⟨hheldDays, hdoubleDays⟩ := held_spec (n := -o.days) (by omega)
  rw [Offset.negate, fitted_eq_ok (by omega), ok_bind, fitted_eq_ok (by omega), ok_bind]
  refine ⟨_, rfl, ⟨h.year, h.month, h.day, h.leapdays, h.weekday,
    ⟨-years, ?_, hyears.neg.trans hheldYears⟩, h.days.neg.trans hheldDays⟩, ⟨?_, ?_, ?_⟩⟩
  · rw [Shift.negate, ← hmonths]
    ring
  · exact hdoubleYears.trans (by omega)
  · exact hdoubleDays.trans (by omega)
  · exact fun w hw => (hwithin.weekday w hw).trans (by omega)

def relativeParts (years months days : Int) (weekday : Option Int) : Parts where
  year := none
  month := none
  day := none
  weekday := weekday
  yearday := none
  nlyearday := none
  years := years
  months := months
  days := days
  leapdays := 0

/-- The offset made of relative parts makes the shift by them. -/
theorem ofParts_makes {years months days : Int} {weekday : Option Int}
    (hyears : years.natAbs ≤ 2 ^ 53) (hmonths : months.natAbs ≤ 2 ^ 53)
    (hdays : days.natAbs ≤ 2 ^ 56) (hweekday : ∀ w ∈ weekday, w.natAbs ≤ 2 ^ 53) :
    ∃ o, ofParts (relativeParts years months days weekday) = .ok o ∧
      o.Makes ⟨12 * years + months, days, weekday⟩ ∧ o.Within (2 ^ 57) := by
  have hcarry := Int.mul_tdiv_add_tmod months 12
  have hlower := Int.lt_tmod_of_pos months (show (0 : Int) < 12 by decide)
  have hupper := Int.tmod_lt_of_pos months (show (0 : Int) < 12 by decide)
  obtain ⟨hheldYears, hdoubleYears⟩ := held_spec (n := years + months.tdiv 12) (by omega)
  obtain ⟨hheldDays, hdoubleDays⟩ := held_spec (n := days) (by omega)
  have hsum : fitted (years + (carryMonths months).1) = .ok (years + months.tdiv 12) :=
    fitted_eq_ok (by rw [carryMonths]; omega)
  have hsize : fitted (months.natAbs : Int) = .ok months.natAbs := fitted_eq_ok (by omega)
  unfold ofParts relativeParts
  simp only [Parts.monthAndDay, Option.none_or, hsize, hsum, ok_bind, pure_eq]
  refine ⟨_, rfl, ⟨rfl, rfl, rfl, rfl, rfl, ⟨years + months.tdiv 12, ?_, hheldYears⟩, hheldDays⟩,
    ⟨?_, ?_, ?_⟩⟩
  · show 12 * (years + months.tdiv 12) + months.tmod 12 = 12 * years + months
    omega
  · exact hdoubleYears.trans (by omega)
  · exact hdoubleDays.trans (by omega)
  · exact fun w hw => (hweekday w hw).trans (by decide)

/-! ## Applying an offset -/

/-- Moving by at most eleven months counts months through the years. -/
theorem moveMonths_spec {year month months : Int} (hyear : year.natAbs < 2 ^ 62)
    (hmonth : 1 ≤ month ∧ month ≤ 12) (hmonths : -11 ≤ months ∧ months ≤ 11) :
    ∃ year' month', moveMonths year month months = .ok (year', month') ∧
      (1 ≤ month' ∧ month' ≤ 12) ∧ 12 * year' + month' = 12 * year + month + months := by
  rw [moveMonths]
  by_cases hzero : months = 0
  · rw [if_pos hzero]
    exact ⟨year, month, rfl, hmonth, by omega⟩
  · rw [if_neg hzero, fitted_eq_ok (by omega), ok_bind]
    by_cases hover : month + months > 12
    · rw [if_pos hover, fitted_eq_ok (by omega)]
      exact ⟨_, _, rfl, by omega, by omega⟩
    · rw [if_neg hover]
      by_cases hunder : month + months < 1
      · rw [if_pos hunder, fitted_eq_ok (by omega)]
        exact ⟨_, _, rfl, by omega, by omega⟩
      · rw [if_neg hunder]
        exact ⟨_, _, rfl, by omega, by omega⟩

/-- A year of the calendar fits into 32 bits. -/
theorem fit?_year {year : Int} (h : 1 ≤ year ∧ year ≤ 9999) : Number.fit? 32 year = some year :=
  Number.fit?_of_natAbs_lt (lt_of_lt_of_le (b := 10000) (by omega) (by decide))

/-- Whole days make a duration unless they are too many. -/
theorem ofDays_cases (days : Int) :
    (days.natAbs ≤ 999999999 ∧ ∃ t, Duration.ofDays days = .ok t ∧ t.days = days) ∨
      (999999999 < days.natAbs ∧ Duration.ofDays days = .error (.durationDays days)) := by
  have hwhole : days * DateTime.microsPerDay / DateTime.microsPerDay = days :=
    Int.mul_ediv_cancel _ (by decide)
  unfold Duration.ofDays Duration.ofMicros
  split
  · next hrange =>
    rw [hwhole, maxDurationDays] at hrange
    exact Or.inl ⟨by omega, _, rfl, hwhole⟩
  · next hrange =>
    rw [hwhole, maxDurationDays] at hrange
    rw [hwhole]
    exact Or.inr ⟨by omega, rfl⟩

/-- The move on to a weekday takes less than a week, and fails when the calendar ends before. -/
theorem addDays_weekday (m : Date) (w : Int) :
    (∃ e, m.addDays ((7 - m.weekday + w) % 7) = .ok e ∧ Shift.Reaches w m e) ∨
      m.addDays ((7 - m.weekday + w) % 7) = .error .dateRange ∧
        ∀ e : Date, m.ordinal ≤ e.ordinal → e.weekday ≠ w % 7 := by
  have hbounds := m.ordinal_bounds
  rcases m.addDays_cases ((7 - m.weekday + w) % 7) with ⟨e, hok, he⟩ | ⟨herror, hout⟩
  · refine Or.inl ⟨e, hok, ?_⟩
    rw [Date.weekday] at he
    refine ⟨by omega, by omega, ?_, fun f hlater hearlier => ?_⟩
    · rw [Date.weekday]
      omega
    · rw [Date.weekday]
      omega
  · refine Or.inr ⟨herror, fun e hlater => ?_⟩
    have hlast := e.ordinal_bounds.2
    rw [Date.weekday] at hout ⊢
    omega

/-- What an offset does to a date whose year and month are moved. -/
def finish (o : Offset) (c : Date) : Except CalendarError Date :=
  Duration.ofDays o.days >>= fun shift => c.addDays shift.days >>= fun moved =>
    match o.weekday with
    | none => .ok moved
    | some w => fitted (7 - moved.weekday + w) >>= fun ahead => moved.addDays (ahead % 7)

variable {o : Offset} {s : Shift} {d : Date}

theorem apply_eq (h : o.Makes s) (hyears : o.years.natAbs ≤ 2 ^ 60) {year month : Int}
    (hmoved : moveMonths (d.year + o.years) d.month o.months = .ok (year, month))
    (hmonth : 1 ≤ month ∧ month ≤ 12) :
    o.apply d = if Number.fit? 32 year = none then .error (.year year)
      else Date.ofCalendar year month (min d.day (daysInMonth year month.toNat)) >>= o.finish := by
  have hchecked : ¬ (o.months ≠ 0 ∧ ¬ (1 ≤ o.months.natAbs ∧ o.months.natAbs ≤ 12)) := by
    have := o.months_range
    omega
  have hfits : ¬ (month < 1 ∨ month > 12) := by omega
  have hsum : fitted (d.year + o.years) = .ok (d.year + o.years) := by
    have := d.year_range
    exact fitted_eq_ok (by omega)
  have hleaps : ¬ (o.leapdays ≠ 0 ∧ month > 2 ∧ isLeap year = true) := fun hleaps =>
    hleaps.1 h.leapdays
  unfold apply
  simp only [h.year, h.month, h.day, given, hsum, ok_bind, if_neg hchecked, hmoved]
  by_cases hfit : Number.fit? 32 year = none
  · rw [if_pos hfit, if_pos hfit]
    rfl
  · rw [if_neg hfit, if_neg hfit]
    simp only [if_neg hfits, if_neg hleaps]
    rfl

/-- The days and the weekday of an offset are answered from the month on. -/
theorem finish_answered (h : o.Makes s) (hweekday : ∀ w ∈ o.weekday, w.natAbs ≤ 2 ^ 60) {c : Date}
    (hc : s.Clamps d c) : s.Answered d (o.finish c) := by
  rw [h.weekday] at hweekday
  rw [finish, h.weekday]
  rcases ofDays_cases o.days with ⟨hdays, shift, hshift, hwhole⟩ | ⟨hlong, herror⟩
  · have hexact : o.days = s.days := by
      rcases h.days with hexact | ⟨-, hlarge⟩
      · exact hexact
      · omega
    rw [hshift, ok_bind, hwhole, hexact]
    rw [hexact] at hdays
    rcases c.addDays_cases s.days with ⟨m, hm, hordinal⟩ | ⟨herror, hout⟩
    · rw [hm, ok_bind]
      cases hon : s.weekday with
      | none =>
        refine .leads ⟨hdays, c, m, hc, hordinal, ?_⟩
        rw [Shift.Ends, hon]
      | some w =>
        have hsum : (7 - m.weekday + w).natAbs < 2 ^ 63 := by
          have := hweekday w hon
          rw [Date.weekday]
          omega
        dsimp only
        rw [fitted_eq_ok hsum, ok_bind]
        rcases addDays_weekday m w with ⟨e, he, hreaches⟩ | ⟨herror, hnever⟩
        · rw [he]
          refine .leads ⟨hdays, c, m, hc, hordinal, ?_⟩
          rw [Shift.Ends, hon]
          exact hreaches
        · rw [herror]
          exact .leaves (Or.inr (Or.inr ⟨c, hc, Or.inr ⟨m, w, hordinal, hon, hnever⟩⟩)) (by simp)
    · rw [herror, error_bind]
      exact .leaves (Or.inr (Or.inr ⟨c, hc, Or.inl hout⟩)) (by simp)
  · rw [herror, error_bind]
    refine .leaves (Or.inr (Or.inl ?_)) (by simp)
    rcases h.days with hexact | ⟨hlarge, -⟩ <;> omega

/-- An offset computes the shift that it makes. -/
theorem apply_answered (h : o.Makes s) (hwithin : o.Within (2 ^ 60)) (d : Date) :
    s.Answered d (o.apply d) := by
  obtain ⟨years, hmonths, hyears⟩ := h.months
  have hmonth : 1 ≤ (d.month : Int) ∧ (d.month : Int) ≤ 12 := by
    have := d.month_range
    omega
  have hsum : (d.year + o.years).natAbs < 2 ^ 62 := by
    have := d.year_range
    have := hwithin.years
    omega
  obtain ⟨year, month, hmove, hrange, hcount⟩ := moveMonths_spec hsum hmonth o.months_range
  have htarget : s.month d = 12 * (year + (years - o.years)) + month - 1 := by
    rw [Shift.month, ← hmonths]
    omega
  rw [apply_eq h hwithin.years hmove hrange]
  by_cases hyear : 1 ≤ year ∧ year ≤ 9999
  · -- a year of the calendar was not rounded
    have hexact : years = o.years := by
      have := d.year_range
      have := o.months_range
      rcases hyears with hexact | ⟨-, hlarge⟩ <;> omega
    rw [hexact, sub_self, add_zero] at htarget
    rw [fit?_year hyear, if_neg (Option.some_ne_none _)]
    have hday : 1 ≤ (min d.day (daysInMonth year month.toNat) : Int) ∧
        (min d.day (daysInMonth year month.toNat) : Int) ≤ daysInMonth year month.toNat := by
      have hlength : 28 ≤ daysInMonth year month.toNat := by
        rw [daysInMonth]
        split_ifs <;> omega
      have := d.day_range.1
      omega
    obtain ⟨c, hc⟩ := Date.exists_ofCalendar_iff.mpr ⟨hyear, hrange, hday⟩
    rw [hc, ok_bind]
    obtain ⟨hcy, hcm, hcd⟩ := Date.ofCalendar_eq_ok_iff.mp hc
    refine finish_answered h hwithin.weekday ⟨by omega, by omega, ?_⟩
    rw [← hcy, ← hcm, Int.toNat_natCast] at hcd
    exact_mod_cast hcd
  · have hleaves : s.Leaves d := by
      refine Or.inl ?_
      have := d.year_range
      have := o.months_range
      rcases hyears with hexact | ⟨hlarge, -⟩ <;> omega
    have herror : Date.ofCalendar year month (min d.day (daysInMonth year month.toNat)) =
        .error (.year year) := by
      rw [Date.ofCalendar, dif_neg hyear]
    rw [herror, error_bind, ite_self]
    exact .leaves hleaves (by simp)

end Offset

end FilterLang
