import FilterLang.Proofs.Calendar.Chronology
import Mathlib
/-!
Dates from their ordinals.

The year of an ordinal is guessed from the mean length of a year and put right by one
(`yearOfOrdinal_spec`); the month is the last that begins before the day (`monthOfDay_spec`). So
every ordinal from that of the first date to that of the last one is the ordinal of a date, and
is turned back into it (`ofOrdinal?_eq_some_iff`).
-/

namespace FilterLang.Date

/-! ## Years and months of days -/

/-- A day lies in the year that is found for it. -/
theorem yearOfOrdinal_spec (n : Int) :
    daysBeforeYear (yearOfOrdinal n) < n ∧ n ≤ daysBeforeYear (yearOfOrdinal n + 1) := by
  rw [yearOfOrdinal]
  generalize hguess : (n - 1) * 400 / 146097 + 1 = y
  -- the first of January of the guessed year is at most a year and a day off
  have hearly : daysBeforeYear (y - 1) < n := by
    simp only [daysBeforeYear]
    omega
  have hlate : n ≤ daysBeforeYear (y + 2) := by
    simp only [daysBeforeYear]
    omega
  split
  · next hbefore => exact ⟨hearly, by rwa [sub_add_cancel]⟩
  · next hbefore =>
    split
    · next hafter => exact ⟨hafter, by rwa [add_assoc]⟩
    · next hafter => exact ⟨not_le.mp hbefore, not_lt.mp hafter⟩

/-- A day of the year lies in the month that is found for it. -/
theorem monthOfDay_spec (year : Int) {day : Int} (hday : 0 < day) (bound : Nat) (hbound : 1 ≤ bound)
    (h : day ≤ daysBeforeMonth year (bound + 1)) :
    (1 ≤ monthOfDay year day bound ∧ monthOfDay year day bound ≤ bound) ∧
      daysBeforeMonth year (monthOfDay year day bound) < day ∧
      day ≤ daysBeforeMonth year (monthOfDay year day bound + 1) := by
  induction bound with
  | zero => omega
  | succ bound ih =>
    rw [monthOfDay]
    split
    · next hlast => exact ⟨⟨by omega, le_rfl⟩, hlast, h⟩
    · next hlast =>
      -- no day lies before the first month
      have hpos : 1 ≤ bound := by
        rcases Nat.eq_zero_or_pos bound with rfl | hpos
        · exact absurd hday hlast
        · exact hpos
      obtain ⟨⟨hlow, hhigh⟩, hmonth⟩ := ih hpos (not_lt.mp hlast)
      exact ⟨⟨hlow, by omega⟩, hmonth⟩

/-! ## Dates with given parts -/

theorem ofCalendar_eq_ok_iff {year month day : Int} {d : Date} :
    ofCalendar year month day = .ok d ↔
      (d.year : Int) = year ∧ (d.month : Int) = month ∧ (d.day : Int) = day := by
  constructor
  · intro h
    unfold ofCalendar at h
    split_ifs at h with hy hm hd
    cases h
    exact ⟨Int.toNat_of_nonneg (by omega), Int.toNat_of_nonneg (by omega),
      Int.toNat_of_nonneg (by omega)⟩
  · rintro ⟨rfl, rfl, rfl⟩
    have hy := d.year_range
    have hm := d.month_range
    have hd := d.day_range
    rw [ofCalendar, dif_pos (by omega), dif_pos (by omega), dif_pos (by simpa using hd)]
    rfl

/-- A date is made when there is one with the year, the month and the day. -/
theorem exists_ofCalendar_iff {year month day : Int} :
    (∃ d, ofCalendar year month day = .ok d) ↔ (1 ≤ year ∧ year ≤ 9999) ∧
      (1 ≤ month ∧ month ≤ 12) ∧ 1 ≤ day ∧ day ≤ daysInMonth year month.toNat := by
  constructor
  · rintro ⟨d, h⟩
    unfold ofCalendar at h
    split_ifs at h with hy hm hd
    exact ⟨hy, hm, hd⟩
  · rintro ⟨hy, hm, hd⟩
    rw [ofCalendar, dif_pos hy, dif_pos hm, dif_pos hd]
    exact ⟨_, rfl⟩

/-! ## Dates with given ordinals -/

/-- The ordinal of the last day of the year 9999. -/
def maxOrdinal : Int := 3652059

theorem ordinal_bounds (d : Date) : 1 ≤ d.ordinal ∧ d.ordinal ≤ maxOrdinal := by
  obtain ⟨hlow, hhigh⟩ := d.ordinal_range
  obtain ⟨hfirst, hlast⟩ := d.year_range
  constructor
  · have hstart : daysBeforeYear 1 ≤ daysBeforeYear d.year := daysBeforeYear_le (by omega)
    have hzero : daysBeforeYear 1 = 0 := by decide
    omega
  · calc d.ordinal ≤ daysBeforeYear (d.year + 1) := hhigh
      _ ≤ daysBeforeYear 10000 := daysBeforeYear_le (by omega)
      _ = maxOrdinal := by decide

/-- The years of the calendar are those of the ordinals in the range. -/
theorem yearOfOrdinal_range_iff (n : Int) :
    (1 ≤ yearOfOrdinal n ∧ yearOfOrdinal n ≤ 9999) ↔ 1 ≤ n ∧ n ≤ maxOrdinal := by
  obtain ⟨hstart, hend⟩ := yearOfOrdinal_spec n
  have hfirst : daysBeforeYear 1 = 0 := by decide
  have hlast : daysBeforeYear 10000 = maxOrdinal := by decide
  generalize yearOfOrdinal n = year at hstart hend
  constructor
  · rintro ⟨hlow, hhigh⟩
    have hlow' : daysBeforeYear 1 ≤ daysBeforeYear year := daysBeforeYear_le hlow
    have hhigh' : daysBeforeYear (year + 1) ≤ daysBeforeYear 10000 := daysBeforeYear_le (by omega)
    omega
  · rintro ⟨hlow, hhigh⟩
    constructor
    · by_contra hout
      have hle : daysBeforeYear (year + 1) ≤ daysBeforeYear 1 := daysBeforeYear_le (by omega)
      omega
    · by_contra hout
      have hle : daysBeforeYear 10000 ≤ daysBeforeYear year := daysBeforeYear_le (by omega)
      omega

/-- An ordinal in the range is turned into a date that has it. -/
theorem exists_ofOrdinal? {n : Int} (h : 1 ≤ n ∧ n ≤ maxOrdinal) :
    ∃ d, ofOrdinal? n = some d ∧ d.ordinal = n := by
  obtain ⟨hstart, hend⟩ := yearOfOrdinal_spec n
  have hyear := (yearOfOrdinal_range_iff n).mpr h
  unfold ofOrdinal?
  dsimp only
  generalize yearOfOrdinal n = year at hstart hend hyear
  rw [daysBeforeYear_succ] at hend
  obtain ⟨hmonth, hfirst, hlast⟩ := monthOfDay_spec year
    (show 0 < n - daysBeforeYear year by omega) 12 (by decide) (sub_le_iff_le_add'.mpr hend)
  generalize monthOfDay year (n - daysBeforeYear year) 12 = month at hmonth hfirst hlast
  rw [daysBeforeMonth_succ year hmonth.1] at hlast
  have hday : 1 ≤ n - daysBeforeYear year - daysBeforeMonth year month ∧
      n - daysBeforeYear year - daysBeforeMonth year month ≤
        daysInMonth year (month : Int).toNat := by
    rw [Int.toNat_natCast]
    push_cast at hlast
    omega
  obtain ⟨d, hd⟩ := exists_ofCalendar_iff.mpr ⟨hyear, ⟨by omega, by omega⟩, hday⟩
  refine ⟨d, by rw [hd], ?_⟩
  obtain ⟨hdy, hdm, hdd⟩ := ofCalendar_eq_ok_iff.mp hd
  rw [ordinal_eq_days, hdy, hdd, Nat.cast_inj.mp hdm]
  omega

/-- The date with an ordinal is the one that is found. -/
theorem ofOrdinal?_eq_some_iff {n : Int} {d : Date} : ofOrdinal? n = some d ↔ d.ordinal = n := by
  constructor
  · intro h
    -- the date was made, so its year is one of the calendar
    have hyear : 1 ≤ yearOfOrdinal n ∧ yearOfOrdinal n ≤ 9999 := by
      unfold ofOrdinal? at h
      dsimp only at h
      split at h
      · next e he => exact (exists_ofCalendar_iff.mp ⟨e, he⟩).1
      · cases h
    obtain ⟨e, he, hordinal⟩ := exists_ofOrdinal? ((yearOfOrdinal_range_iff n).mp hyear)
    rw [he] at h
    cases h
    exact hordinal
  · rintro rfl
    obtain ⟨e, he, hordinal⟩ := exists_ofOrdinal? d.ordinal_bounds
    rw [he, ordinal_injective hordinal]

/-! ## Days added to a date -/

theorem julianDay_eq (d : Date) : d.julianDay = d.ordinal + ordinalOffset := by
  rw [ordinal, sub_add_cancel]

/-- The day numbers of the calendar fit into 32 bits: a sum of more bits is that of no date. -/
theorem ofOrdinal?_eq_none {n : Int} (h : Number.fit? 32 (n + ordinalOffset) = none) :
    ofOrdinal? n = none := by
  refine Option.eq_none_iff_forall_ne_some.mpr fun d hd => ?_
  have hbounds := d.ordinal_bounds
  rw [ofOrdinal?_eq_some_iff.mp hd, maxOrdinal] at hbounds
  have hbits : (n + ordinalOffset).natAbs < Number.pow2 (32 - 1) := by
    rw [ordinalOffset]
    refine lt_of_lt_of_le (b := 2 ^ 23) (by omega) (by decide)
  rw [Number.fit?_of_natAbs_lt hbits] at h
  cases h

/-- Moving by Julian day numbers moves the ordinal, and no sum in the calendar is refused for its
width. -/
theorem ofJulianDay?_fit (d : Date) (days : Int) :
    (Number.fit? 32 (d.julianDay + days)).bind ofJulianDay? = ofOrdinal? (d.ordinal + days) := by
  have hsum : d.julianDay + days = d.ordinal + days + ordinalOffset := by
    rw [julianDay_eq, add_right_comm]
  rw [hsum]
  cases hfit : Number.fit? 32 (d.ordinal + days + ordinalOffset) with
  | none => rw [ofOrdinal?_eq_none hfit, Option.bind_none]
  | some n =>
    rw [Number.fit?_eq_some hfit, Option.bind_some, ofJulianDay?, add_sub_cancel_right]

/-- Adding days stays in the calendar or fails. -/
theorem addDays_cases (d : Date) (days : Int) :
    (∃ e, d.addDays days = .ok e ∧ e.ordinal = d.ordinal + days) ∨
    (d.addDays days = .error .dateRange ∧
      ¬ (1 ≤ d.ordinal + days ∧ d.ordinal + days ≤ maxOrdinal)) := by
  unfold addDays
  rw [ofJulianDay?_fit]
  split
  · next e he => exact Or.inl ⟨e, rfl, ofOrdinal?_eq_some_iff.mp he⟩
  · next hnone =>
    refine Or.inr ⟨rfl, fun hrange => ?_⟩
    obtain ⟨e, he, -⟩ := exists_ofOrdinal? hrange
    rw [hnone] at he
    cases he

end FilterLang.Date
