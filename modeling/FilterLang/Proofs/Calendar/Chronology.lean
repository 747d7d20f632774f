import FilterLang.Calendar.Clock
import Mathlib
/-!
The order of dates and moments, and the texts that tell them apart.

The days of a year follow those of the years before it, and the days of a month those of
the months before it, so dates are in the order of their ordinals (`order_eq_compare`).
Texts in the ISO form have parts of fixed widths, so each part can be read off
(`iso_injective`).
-/

namespace FilterLang

/-! ## Ordinals -/

namespace Date

theorem daysBeforeMonth_succ (year : Int) {month : Nat} (h : 1 ≤ month) :
    daysBeforeMonth year (month + 1) = daysBeforeMonth year month + daysInMonth year month := by
  obtain ⟨m, rfl⟩ : ∃ m, month = m + 1 := ⟨month - 1, by omega⟩
  rfl

/-- The days of a year before the first of a month lie before every later month. -/
theorem daysBeforeMonth_le {year : Int} {month month' : Nat} (h : month ≤ month') :
    daysBeforeMonth year month ≤ daysBeforeMonth year month' := by
  refine monotone_nat_of_le_succ (fun m => ?_) h
  rcases Nat.eq_zero_or_pos m with rfl | hm
  · exact Nat.le_refl 0
  · rw [daysBeforeMonth_succ year hm]
    exact Nat.le_add_right _ _

/-- A year after the first has the days of its months and no more. -/
theorem daysBeforeYear_succ (year : Int) :
    daysBeforeYear (year + 1) = daysBeforeYear year + daysBeforeMonth year 13 := by
  rw [daysBeforeYear, daysBeforeYear]
  cases hleap : isLeap year with
  | true =>
    have hmonths : daysBeforeMonth year 13 = 366 := by
      simp [daysBeforeMonth, daysInMonth, hleap]
    simp [isLeap] at hleap
    omega
  | false =>
    have hmonths : daysBeforeMonth year 13 = 365 := by
      simp [daysBeforeMonth, daysInMonth, hleap]
    simp [isLeap] at hleap
    omega

theorem daysBeforeYear_le {year year' : Int} (h : year ≤ year') :
    daysBeforeYear year ≤ daysBeforeYear year' := by
  simp only [daysBeforeYear]
  omega

/-- The day of the month is one of the days up to the next month. -/
theorem dayOfYear_le (d : Date) :
    daysBeforeMonth d.year d.month + d.day ≤ daysBeforeMonth d.year (d.month + 1) := by
  rw [daysBeforeMonth_succ _ d.month_range.1]
  have := d.day_range.2
  omega

/-- An ordinal counts the days of the years before, of the months before and of the month. -/
theorem ordinal_eq_days (d : Date) :
    d.ordinal = daysBeforeYear d.year + daysBeforeMonth d.year d.month + d.day := by
  rw [ordinal, julianDay, add_sub_cancel_left]

/-- A date lies in its year. -/
theorem ordinal_range (d : Date) :
    daysBeforeYear d.year < d.ordinal ∧ d.ordinal ≤ daysBeforeYear (d.year + 1) := by
  have hday := d.day_range.1
  have hend := dayOfYear_le d
  have hyear : daysBeforeMonth d.year (d.month + 1) ≤ daysBeforeMonth d.year 13 :=
    daysBeforeMonth_le (by have := d.month_range.2; omega)
  rw [daysBeforeYear_succ, ordinal_eq_days]
  omega

theorem ordinal_lt_of_year {a b : Date} (h : a.year < b.year) : a.ordinal < b.ordinal := by
  calc a.ordinal ≤ daysBeforeYear (a.year + 1) := a.ordinal_range.2
    _ ≤ daysBeforeYear b.year := daysBeforeYear_le (by omega)
    _ < b.ordinal := b.ordinal_range.1

theorem ordinal_lt_of_month {a b : Date} (hy : a.year = b.year) (h : a.month < b.month) :
    a.ordinal < b.ordinal := by
  have hend := dayOfYear_le a
  have hmonth : daysBeforeMonth a.year (a.month + 1) ≤ daysBeforeMonth a.year b.month :=
    daysBeforeMonth_le h
  have hday := b.day_range.1
  rw [ordinal_eq_days, ordinal_eq_days, ← hy]
  omega

/-- Dates are in the order of their ordinals. -/
theorem order_eq_compare (a b : Date) : order a b = compare a.ordinal b.ordinal := by
  rw [order]
  rcases lt_trichotomy a.year b.year with hy | hy | hy
  · rw [compare_lt_iff_lt.mpr hy, compare_lt_iff_lt.mpr (ordinal_lt_of_year hy)]
    rfl
  · rw [compare_eq_iff_eq.mpr hy]
    rcases lt_trichotomy a.month b.month with hm | hm | hm
    · rw [compare_lt_iff_lt.mpr hm, compare_lt_iff_lt.mpr (ordinal_lt_of_month hy hm)]
      rfl
    · rw [compare_eq_iff_eq.mpr hm, ordinal_eq_days, ordinal_eq_days, hy,
        hm]
      simp [compare, compareOfLessAndEq]
    · rw [compare_gt_iff_gt.mpr hm, compare_gt_iff_gt.mpr (ordinal_lt_of_month hy.symm hm)]
      rfl
  · rw [compare_gt_iff_gt.mpr hy, compare_gt_iff_gt.mpr (ordinal_lt_of_year hy)]
    rfl

/-- A date is known by its year, its month and its day. -/
theorem ext {a b : Date} (hy : a.year = b.year) (hm : a.month = b.month) (hd : a.day = b.day) :
    a = b := by
  cases a
  cases b
  cases hy
  cases hm
  cases hd
  rfl

theorem ordinal_injective {a b : Date} (h : a.ordinal = b.ordinal) : a = b := by
  have horder : order a b = .eq := (order_eq_compare a b).trans (compare_eq_iff_eq.mpr h)
  simp only [order, Ordering.then_eq_eq, compare_eq_iff_eq] at horder
  exact ext horder.1 horder.2.1 horder.2.2

/-- Ordinals are small enough to be held exactly. -/
theorem natAbs_ordinal_le (d : Date) : d.ordinal.natAbs ≤ 2 ^ 53 := by
  have hrange := d.ordinal_range
  have hyear := d.year_range
  simp only [daysBeforeYear] at hrange
  omega

end Date

/-! ## Microseconds -/

theorem Clock.ext {a b : Clock} (hh : a.hour = b.hour) (hm : a.minute = b.minute)
    (hs : a.second = b.second) (hu : a.micro = b.micro) : a = b := by
  cases a
  cases b
  cases hh
  cases hm
  cases hs
  cases hu
  rfl

theorem Clock.micros_lt (c : Clock) : (c.micros : Int) < DateTime.microsPerDay := by
  have h1 := c.hour_range
  have h2 := c.minute_range
  have h3 := c.second_range
  have h4 := c.micro_range
  rw [DateTime.microsPerDay, Clock.micros]
  omega

theorem Clock.micros_injective {a b : Clock} (h : a.micros = b.micros) : a = b := by
  have hm := a.minute_range
  have hm' := b.minute_range
  have hs := a.second_range
  have hs' := b.second_range
  have hu := a.micro_range
  have hu' := b.micro_range
  simp only [Clock.micros] at h
  exact Clock.ext (by omega) (by omega) (by omega) (by omega)

theorem DateTime.micros_injective {a b : DateTime} (h : a.micros = b.micros) : a = b := by
  have hc := a.clock.micros_lt
  have hc' := b.clock.micros_lt
  simp only [DateTime.micros, DateTime.microsPerDay] at h hc hc'
  have hdate : a.date = b.date := Date.ordinal_injective (by omega)
  have hclock : a.clock = b.clock := Clock.micros_injective (by omega)
  cases a
  cases b
  cases hdate
  cases hclock
  rfl

/-! ## Texts -/

theorem Date.toList_padded (width n : Nat) :
    (Date.padded width n).toList =
      List.replicate (width - (Nat.toDigits 10 n).length) '0' ++ Nat.toDigits 10 n := by
  simp [Date.padded, Text.padLeft, ← String.length_toList]

theorem Date.ofDigitChars_padded (width n : Nat) :
    Nat.ofDigitChars 10 (Date.padded width n).toList 0 = n := by
  rw [Date.toList_padded, Nat.ofDigitChars_append, Nat.ofDigitChars_replicate_zero, Nat.mul_zero,
    Nat.ofDigitChars_ten_toDigits]

/-- Leading zeros do not hide a number. -/
theorem Date.padded_injective {width n n' : Nat}
    (h : (Date.padded width n).toList = (Date.padded width n').toList) : n = n' := by
  rw [← Date.ofDigitChars_padded width n, h, Date.ofDigitChars_padded width n']

theorem Date.length_padded {width n : Nat} (hwidth : 0 < width) (hn : n < 10 ^ width) :
    (Date.padded width n).toList.length = width := by
  have hlen := (Nat.length_toDigits_le_iff (by decide : 1 < 10) hwidth).mpr hn
  rw [Date.toList_padded, List.length_append, List.length_replicate]
  omega

/-- Parts of one width, followed by texts that are equal, are equal. -/
theorem Date.append_padded_injective {width n n' : Nat} {rest rest' : List Char}
    (hwidth : 0 < width) (hn : n < 10 ^ width) (hn' : n' < 10 ^ width)
    (h : (Date.padded width n).toList ++ rest = (Date.padded width n').toList ++ rest') :
    n = n' ∧ rest = rest' := by
  have hlen := (Date.length_padded hwidth hn).trans (Date.length_padded hwidth hn').symm
  obtain ⟨hpart, hrest⟩ := List.append_inj h hlen
  exact ⟨Date.padded_injective hpart, hrest⟩

/-! A year has four digits. The other parts of a date, and those of a time of day but its
microseconds, have two. -/

theorem Date.year_lt (d : Date) : d.year < 10 ^ 4 := by
  have := d.year_range
  omega

theorem Date.month_lt (d : Date) : d.month < 10 ^ 2 := by
  have := d.month_range
  omega

theorem Date.day_lt (d : Date) : d.day < 10 ^ 2 := by
  have hrange := d.day_range.2
  have hlen : daysInMonth d.year d.month ≤ 31 := by rw [daysInMonth]; split_ifs <;> omega
  omega

theorem Clock.hour_lt (c : Clock) : c.hour < 10 ^ 2 := by
  have := c.hour_range
  omega

theorem Clock.minute_lt (c : Clock) : c.minute < 10 ^ 2 := by
  have := c.minute_range
  omega

theorem Clock.second_lt (c : Clock) : c.second < 10 ^ 2 := by
  have := c.second_range
  omega

/-- A date is read off the start of a text. -/
theorem Date.append_iso_injective {a b : Date} {rest rest' : List Char}
    (h : a.iso.toList ++ rest = b.iso.toList ++ rest') : a = b ∧ rest = rest' := by
  simp only [Date.iso, String.toList_append, List.append_assoc] at h
  obtain ⟨hy, h⟩ := Date.append_padded_injective (by decide) a.year_lt b.year_lt h
  obtain ⟨hm, h⟩ := Date.append_padded_injective (by decide) a.month_lt b.month_lt
    (List.append_cancel_left h)
  obtain ⟨hd, h⟩ := Date.append_padded_injective (by decide) a.day_lt b.day_lt
    (List.append_cancel_left h)
  exact ⟨Date.ext hy hm hd, h⟩

/-- The time of day to the second is read off the start of a text. -/
theorem Clock.append_hms_injective {a b : Clock} {rest rest' : List Char}
    (h : a.hms.toList ++ rest = b.hms.toList ++ rest') :
    a.hour = b.hour ∧ a.minute = b.minute ∧ a.second = b.second ∧ rest = rest' := by
  simp only [Clock.hms, String.toList_append, List.append_assoc] at h
  obtain ⟨hh, h⟩ := Date.append_padded_injective (by decide) a.hour_lt b.hour_lt h
  obtain ⟨hm, h⟩ := Date.append_padded_injective (by decide) a.minute_lt b.minute_lt
    (List.append_cancel_left h)
  obtain ⟨hs, h⟩ := Date.append_padded_injective (by decide) a.second_lt b.second_lt
    (List.append_cancel_left h)
  exact ⟨hh, hm, hs, h⟩

/-- What follows the seconds: nothing, or a point and the microseconds. -/
theorem Clock.toList_iso (c : Clock) :
    c.iso.toList = c.hms.toList ++
      (if c.micro = 0 then [] else '.' :: (Date.padded 6 c.micro).toList) := by
  rw [Clock.iso]
  split
  · rw [List.append_nil]
  · simp [String.toList_append]

theorem Clock.iso_injective {a b : Clock} (h : a.iso = b.iso) : a = b := by
  have hlist := congrArg String.toList h
  rw [Clock.toList_iso, Clock.toList_iso] at hlist
  obtain ⟨hh, hm, hs, hmicro⟩ := Clock.append_hms_injective hlist
  refine Clock.ext hh hm hs ?_
  split at hmicro <;> split at hmicro
  · omega
  · cases hmicro
  · cases hmicro
  · exact Date.padded_injective (List.cons.inj hmicro).2

theorem DateTime.iso_injective {separator : String} {a b : DateTime}
    (h : a.iso separator = b.iso separator) : a = b := by
  have hlist := congrArg String.toList h
  simp only [DateTime.iso, String.toList_append, List.append_assoc] at hlist
  obtain ⟨hdate, hlist⟩ := Date.append_iso_injective hlist
  have hclock : a.clock = b.clock :=
    Clock.iso_injective (String.toList_injective (List.append_cancel_left hlist))
  cases a
  cases b
  cases hdate
  cases hclock
  rfl

end FilterLang
