import FilterLang.Proofs.Calendar.Shift
import Mathlib
/-!
Days of the year.

An offset that names a day of the year looks its month up in a table of the last days of the months
(`exists_monthAndDay?`). The table is that of a year without a leap day, so past February the day
that is found is one too late in a leap year, and the offset takes a day back. Only the last entry
of the table does not fit: it lets a 366th day through, which is cut down to the last day of
December and then taken back all the same. So an offset leads to the day of the year that it names,
and to the 365th in place of the 366th (`apply_picks`).
-/

namespace FilterLang

open Fallible

namespace Date

/-! ## Numbers of days in their years -/

/-- The number of a date among the days of its year. -/
def dayOfYear (d : Date) : Nat :=
  daysBeforeMonth d.year d.month + d.day

theorem ordinal_eq (d : Date) : d.ordinal = daysBeforeYear d.year + d.dayOfYear := by
  rw [ordinal_eq_days, dayOfYear]
  omega

/-- Only February is longer in a leap year, by a day. -/
theorem daysInMonth_eq (year : Int) (month : Nat) :
    daysInMonth year month =
      daysInMonth 1 month + if isLeap year = true ∧ month = 2 then 1 else 0 := by
  have hcommon : isLeap 1 = false := by decide
  rw [daysInMonth, daysInMonth, hcommon]
  cases isLeap year with
  | true => by_cases hfebruary : month = 2 <;> simp [hfebruary]
  | false => simp

/-- Only the months after February begin later in a leap year, by a day. -/
theorem daysBeforeMonth_eq (year : Int) (month : Nat) :
    daysBeforeMonth year month =
      daysBeforeMonth 1 month + if isLeap year = true ∧ 2 < month then 1 else 0 := by
  induction month with
  | zero => simp [daysBeforeMonth]
  | succ m ih =>
    rcases Nat.eq_zero_or_pos m with rfl | hm
    · simp [daysBeforeMonth]
    · rw [daysBeforeMonth_succ year hm, daysBeforeMonth_succ 1 hm, ih, daysInMonth_eq year]
      cases isLeap year with
      | true =>
        simp only [true_and]
        split_ifs <;> omega
      | false => simp

/-- A date lies in the year whose days its ordinal is one of. -/
theorem year_eq_of_ordinal {d : Date} {year : Int} (hafter : daysBeforeYear year < d.ordinal)
    (hupto : d.ordinal ≤ daysBeforeYear (year + 1)) : (d.year : Int) = year := by
  obtain ⟨hstart, hend⟩ := d.ordinal_range
  rcases lt_trichotomy (d.year : Int) year with hlt | heq | hgt
  · have hle : daysBeforeYear (d.year + 1) ≤ daysBeforeYear year := daysBeforeYear_le (by omega)
    omega
  · exact heq
  · have hle : daysBeforeYear (year + 1) ≤ daysBeforeYear d.year := daysBeforeYear_le (by omega)
    omega

end Date

namespace Offset

open Date (daysBeforeMonth daysBeforeYear)

/-! ## The table of the months -/

/-- A day that does not lie past the table is found in the month that begins before it and does
not end before it. -/
theorem exists_monthAndDay? {day before : Int} (month : Int) (ends : List Int)
    (hbefore : before < day) (hends : ∃ last ∈ ends, day ≤ last) :
    ∃ (i : Nat) (start last : Int),
      monthAndDay? day before month ends = some (month + i, day - start) ∧
        (before :: ends)[i]? = some start ∧ ends[i]? = some last ∧ start < day ∧ day ≤ last := by
  induction ends generalizing before month with
  | nil =>
    obtain ⟨last, hmem, -⟩ := hends
    cases hmem
  | cons last rest ih =>
    rw [monthAndDay?]
    by_cases hday : day ≤ last
    · rw [if_pos hday]
      exact ⟨0, before, last, by simp, rfl, rfl, hbefore, hday⟩
    · rw [if_neg hday]
      have hlater : ∃ l ∈ rest, day ≤ l := by
        obtain ⟨l, hmem, hl⟩ := hends
        rcases List.mem_cons.mp hmem with rfl | hmem
        · exact absurd hl hday
        · exact ⟨l, hmem, hl⟩
      obtain ⟨i, start, l, hfound, hstart, hlast, hafter, hupto⟩ :=
        ih (month + 1) (not_le.mp hday) hlater
      refine ⟨i + 1, start, l, ?_, hstart, hlast, hafter, hupto⟩
      rw [hfound, add_assoc, add_comm 1, Nat.cast_add_one]

/-- The months of the table begin as those of a year without a leap day. -/
theorem yearDays_start : ∀ i < 12,
    (0 :: yearDays)[i]? = some (daysBeforeMonth 1 (i + 1) : Int) := by
  decide

/-- The months of the table end as those of a year without a leap day, but for December. -/
theorem yearDays_end : ∀ i < 12, yearDays[i]? =
    some ((daysBeforeMonth 1 (i + 2) : Int) + if i = 11 then 1 else 0) := by
  decide

/-! ## Offsets that name a day of the year -/

def yearDayParts (n : Int) : Parts where
  year := none
  month := none
  day := none
  weekday := none
  yearday := some n
  nlyearday := none
  years := 0
  months := 0
  days := 0
  leapdays := 0

/-- An offset picks a day of the year in a month: it has the day of the month that this is in a
year without a leap day, past February it takes a day back in a leap year, and it does no more. -/
structure Picks (o : Offset) (n : Int) (m : Nat) : Prop where
  range : 1 ≤ m ∧ m ≤ 12
  after : (daysBeforeMonth 1 m : Int) < n
  upto : n ≤ (daysBeforeMonth 1 (m + 1) : Int) + if m = 12 then 1 else 0
  month : o.month = some (m : Int)
  day : o.day = some (n - daysBeforeMonth 1 m)
  leapdays : o.leapdays = if n > 59 then -1 else 0
  year : o.year = none
  weekday : o.weekday = none
  years : o.years = 0
  months : o.months = 0
  days : o.days = 0

theorem ofParts_picks {n : Int} (h : 1 ≤ n ∧ n ≤ 366) :
    ∃ o m, ofParts (yearDayParts n) = .ok o ∧ o.Picks n m := by
  obtain ⟨i, start, last, hfound, hstart, hlast, hafter, hupto⟩ :=
    exists_monthAndDay? 1 yearDays (show 0 < n by omega) ⟨366, by decide, h.2⟩
  have hi : i < 12 := (List.getElem?_eq_some_iff.mp hlast).1
  rw [yearDays_start i hi, Option.some.injEq] at hstart
  rw [yearDays_end i hi, Option.some.injEq] at hlast
  subst hstart hlast
  have hnonzero : n ≠ 0 := by omega
  have hend : n ≤ (daysBeforeMonth 1 (i + 1 + 1) : Int) + if i + 1 = 12 then 1 else 0 := by
    simpa using hupto
  have hmonth : (1 : Int) + i = ((i + 1 : Nat) : Int) := by omega
  rw [hmonth] at hfound
  have hpart : (yearDayParts n).monthAndDay =
      .ok (some ((i + 1 : Nat) : Int), some (n - daysBeforeMonth 1 (i + 1))) := by
    rw [Parts.monthAndDay, yearDayParts, Option.none_or]
    dsimp only
    rw [if_neg hnonzero, hfound]
  have hmonths : fitted ((0 : Int).natAbs : Int) = .ok 0 := fitted_eq_ok (by decide)
  have hyears : fitted (0 + (carryMonths 0).1) = .ok 0 := fitted_eq_ok (by decide)
  unfold ofParts
  rw [hpart]
  simp only [yearDayParts, ok_bind, hmonths, hyears]
  exact ⟨_, i + 1, rfl, ⟨by omega, hafter, hend, rfl, rfl, rfl, rfl, rfl, rfl, rfl, rfl⟩⟩

/-! ## Where they lead -/

variable {o : Offset} {n : Int} {m : Nat}

/-- The days that an offset adds to the day that it has found. -/
def leapShift (year : Int) (m : Nat) : Int :=
  if isLeap year = true ∧ 2 < m then -1 else 0

theorem leapShift_range (year : Int) (m : Nat) : -1 ≤ leapShift year m ∧ leapShift year m ≤ 0 := by
  rw [leapShift]
  split_ifs <;> omega

/-- A day past February is a day to take one back from. -/
theorem fitted_leapdays_of_picks (h : o.Picks n m) (year : Int) :
    (if o.leapdays ≠ 0 ∧ (m : Int) > 2 ∧ isLeap year = true then fitted (0 + o.leapdays)
      else .ok 0) = .ok (leapShift year m) := by
  have hafter := h.after
  have hback : fitted (0 + -1) = .ok (-1) := fitted_eq_ok (by decide)
  rw [h.leapdays, leapShift]
  by_cases hm : 2 < m
  · have hmarch : daysBeforeMonth 1 3 ≤ daysBeforeMonth 1 m := Date.daysBeforeMonth_le hm
    have hsum : daysBeforeMonth 1 3 = 59 := by decide
    have hpast : n > 59 := by omega
    rw [if_pos hpast, hback]
    cases isLeap year <;> simp [hm]
  · simp [hm]

theorem apply_eq_of_picks (h : o.Picks n m) (d : Date) :
    o.apply d = Date.ofCalendar d.year m
        (min (n - daysBeforeMonth 1 m) (daysInMonth d.year m)) >>= fun c =>
      Duration.ofDays (leapShift d.year m) >>= fun shift => c.addDays shift.days := by
  have hrange := h.range
  have hafter := h.after
  have hfits : ¬ ((m : Int) < 1 ∨ (m : Int) > 12) := by omega
  have hfit : Number.fit? 32 d.year = some (d.year : Int) := by
    have hyear := d.year_range
    exact fit?_year (by omega)
  have hyear : fitted (given o.year d.year + o.years) = .ok d.year := by
    have hyear := d.year_range
    rw [h.year, given, h.years, add_zero]
    exact fitted_eq_ok (by omega)
  have hmonth : given o.month d.month = m := by
    rw [h.month, given, if_neg (by omega)]
  have hday : given o.day d.day = n - daysBeforeMonth 1 m := by
    rw [h.day, given, if_neg (by omega)]
  have hmove : moveMonths d.year m 0 = .ok ((d.year : Int), (m : Int)) := rfl
  have hleaps := fitted_leapdays_of_picks h d.year
  have hchecked : ¬ ((0 : Int) ≠ 0 ∧ ¬ (1 ≤ (0 : Int).natAbs ∧ (0 : Int).natAbs ≤ 12)) := by decide
  unfold apply
  simp only [hyear, ok_bind, h.months, if_neg hchecked, hmonth, hmove, hfit, h.days, h.weekday,
    if_neg hfits, hday, Int.toNat_natCast]
  rw [if_neg (Option.some_ne_none _)]
  -- on either branch the days are those that `hleaps` says
  split at hleaps
  · next hback =>
    rw [if_pos hback, hleaps, ok_bind]
    simp only [bind_pure]
  · next hkeep =>
    rw [if_neg hkeep, pure_eq, hleaps, ok_bind]
    simp only [bind_pure]

/-- The day that is found, with the day taken back, has the number of the day that was named. -/
theorem found_of_picks (h : o.Picks n m) (year : Int) :
    (daysBeforeMonth year m : Int) + min (n - daysBeforeMonth 1 m) (daysInMonth year m) +
      leapShift year m = min n 365 := by
  have hrange := h.range
  have hupto := h.upto
  have hcancel : (daysBeforeMonth year m : Int) + leapShift year m = daysBeforeMonth 1 m := by
    rw [Date.daysBeforeMonth_eq, leapShift]
    split_ifs <;> omega
  have hmonth : (daysBeforeMonth 1 m : Int) + min (n - daysBeforeMonth 1 m) (daysInMonth year m) =
      min n 365 := by
    rcases Nat.lt_or_eq_of_le hrange.2 with hlt | rfl
    · -- before December the day lies in the month, and is none of the last of the year
      have hend : daysBeforeMonth 1 (m + 1) ≤ daysBeforeMonth 1 12 := Date.daysBeforeMonth_le hlt
      have hdecember : daysBeforeMonth 1 12 = 334 := by decide
      have hlength := Date.daysInMonth_eq year m
      rw [if_neg (by omega)] at hupto
      rw [Date.daysBeforeMonth_succ 1 hrange.1] at hupto hend
      omega
    · -- the table gives December a 32nd day, which is brought back to the 31st
      have hdecember : daysBeforeMonth 1 12 = 334 := by decide
      have hlength : daysInMonth year 12 = 31 := rfl
      rw [hdecember, hlength]
      omega
  omega

/-- The day is found in the year, and with the day taken back it lies where it was named. -/
theorem exists_found (h : o.Picks n m) (d : Date) :
    ∃ c, Date.ofCalendar d.year m (min (n - daysBeforeMonth 1 m) (daysInMonth d.year m)) = .ok c ∧
      c.year = d.year ∧ c.ordinal + leapShift d.year m = daysBeforeYear d.year + min n 365 := by
  have hrange := h.range
  have hyear := d.year_range
  have hafter := h.after
  have hday : 1 ≤ min (n - daysBeforeMonth 1 m) (daysInMonth d.year m) ∧
      min (n - daysBeforeMonth 1 m) (daysInMonth d.year m) ≤
        (daysInMonth d.year (m : Int).toNat : Int) := by
    have hlength : 28 ≤ daysInMonth d.year m := by
      rw [daysInMonth]
      split_ifs <;> omega
    rw [Int.toNat_natCast]
    omega
  obtain ⟨c, hc⟩ := Date.exists_ofCalendar_iff.mpr
    ⟨(show 1 ≤ (d.year : Int) ∧ (d.year : Int) ≤ 9999 by omega),
      (show 1 ≤ (m : Int) ∧ (m : Int) ≤ 12 by omega), hday⟩
  obtain ⟨hcyear, hcmonth, hcday⟩ := Date.ofCalendar_eq_ok_iff.mp hc
  refine ⟨c, hc, Nat.cast_inj.mp hcyear, ?_⟩
  rw [← found_of_picks h d.year, Date.ordinal_eq_days, hcyear, Nat.cast_inj.mp hcmonth, hcday]
  ring

/-- An offset that picks a day of the year leads to it, and to the 365th day in place of the
366th. -/
theorem apply_picks (h : o.Picks n m) (d : Date) :
    ∃ e, o.apply d = .ok e ∧ e.year = d.year ∧ (e.dayOfYear : Int) = min n 365 := by
  have hafter := h.after
  have hback := leapShift_range d.year m
  obtain ⟨c, hc, hcyear, hordinal⟩ := exists_found h d
  have hbounds := c.ordinal_bounds
  obtain ⟨-, shift, hshift, hdays⟩ | ⟨hlarge, -⟩ := ofDays_cases (leapShift d.year m)
  · rw [apply_eq_of_picks h, hc, ok_bind, hshift, ok_bind, hdays]
    obtain ⟨e, he, heordinal⟩ | ⟨-, hout⟩ := c.addDays_cases (leapShift d.year m)
    · -- the day taken back does not lead out of the year
      have hend : c.ordinal ≤ daysBeforeYear (d.year + 1) := hcyear ▸ c.ordinal_range.2
      have heyear : (e.year : Int) = d.year :=
        Date.year_eq_of_ordinal (by omega) (by omega)
      refine ⟨e, he, Nat.cast_inj.mp heyear, ?_⟩
      rw [Date.ordinal_eq, heyear] at heordinal
      omega
    · have hstart : daysBeforeYear 1 ≤ daysBeforeYear d.year :=
        Date.daysBeforeYear_le (by have hyear := d.year_range; omega)
      have hzero : daysBeforeYear 1 = 0 := by decide
      omega
  · omega

end Offset

end FilterLang
