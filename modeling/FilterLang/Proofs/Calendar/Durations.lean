import FilterLang.Calendar.Duration
import FilterLang.Proofs.Calendar.Ordinal
import Mathlib
/-!
Durations as whole numbers of microseconds, and the dates and moments that they move.

A number of microseconds makes a duration unless it has too many days (`ofMicros_made`), and a
duration is shown as days, seconds and microseconds that add up to it (`parts_sum`). How often one
goes into another leaves a remainder that is not negative, which is the quotient rounded down only
while the divisor is positive or leaves no remainder (`ediv_eq_floor`). A date moved by days is the
one that is as many days later, or there is none (`addDays_places`), and so is a moment moved by
microseconds (`addMicros_cases`).
-/

namespace FilterLang

namespace Duration

/-! ## Lengths that there are -/

/-- A number of microseconds has at most 999999999 whole days, either way. -/
def InRange (n : Int) : Prop :=
  |⌊(n : ℚ) / 86400000000⌋| ≤ 999999999

theorem floor_days (n : Int) : ⌊(n : ℚ) / 86400000000⌋ = n / DateTime.microsPerDay :=
  mod_cast Rat.floor_intCast_div_natCast n 86400000000

theorem inRange_iff (n : Int) :
    InRange n ↔ -maxDurationDays ≤ n / DateTime.microsPerDay ∧
      n / DateTime.microsPerDay ≤ maxDurationDays := by
  rw [InRange, floor_days, abs_le]
  rfl

theorem inRange_micros (d : Duration) : InRange d.micros :=
  (inRange_iff d.micros).mpr d.days_range

/-- How a number of microseconds has to be answered: by the duration that it is the length of,
or by a failure when it is too long. -/
inductive Made (n : Int) : Except CalendarError Duration → Prop
  | fits {d : Duration} (hrange : InRange n) (hlength : d.micros = n) : Made n (.ok d)
  | tooLong {days : Int} (hrange : ¬ InRange n) : Made n (.error (.durationDays days))

theorem ofMicros_made (n : Int) : Made n (ofMicros n) := by
  unfold ofMicros
  split
  · next hrange => exact .fits ((inRange_iff n).mpr hrange) rfl
  · next hrange => exact .tooLong fun h => hrange ((inRange_iff n).mp h)

/-- A duration is made of a number of microseconds exactly when it is its length. -/
theorem ofMicros_eq_ok_iff {n : Int} {d : Duration} : ofMicros n = .ok d ↔ d.micros = n := by
  constructor
  · intro h
    have hmade := ofMicros_made n
    rw [h] at hmade
    cases hmade with
    | fits hrange hlength => exact hlength
  · rintro rfl
    rw [ofMicros, dif_pos d.days_range]

theorem exists_ofMicros_iff {n : Int} : (∃ d, ofMicros n = .ok d) ↔ InRange n := by
  constructor
  · rintro ⟨d, hd⟩
    rw [← ofMicros_eq_ok_iff.mp hd]
    exact d.inRange_micros
  · intro hrange
    exact ⟨_, dif_pos ((inRange_iff n).mp hrange)⟩

/-! ## The parts that are shown -/

theorem seconds_range (d : Duration) : 0 ≤ d.seconds ∧ d.seconds < 86400 := by
  rw [seconds, DateTime.microsPerDay]
  omega

theorem microseconds_range (d : Duration) : 0 ≤ d.microseconds ∧ d.microseconds < 1000000 := by
  rw [microseconds]
  omega

theorem parts_sum (d : Duration) :
    d.days * 86400000000 + d.seconds * 1000000 + d.microseconds = d.micros := by
  rw [days, seconds, microseconds, DateTime.microsPerDay]
  omega

/-! ## Quotients -/

/-- A whole number is the quotient of two others rounded down. -/
def Floors (a b q : Int) : Prop :=
  (0 < b ∧ q * b ≤ a ∧ a < (q + 1) * b) ∨ (b < 0 ∧ a ≤ q * b ∧ (q + 1) * b < a)

theorem floor_eq_of_floors {a b q : Int} (h : Floors a b q) : ⌊(a : ℚ) / b⌋ = q := by
  rw [Int.floor_eq_iff]
  rcases h with ⟨hb, hlow, hhigh⟩ | ⟨hb, hlow, hhigh⟩
  · have hb' : (0 : ℚ) < b := by exact_mod_cast hb
    rw [le_div_iff₀ hb', div_lt_iff₀ hb']
    exact ⟨by exact_mod_cast hlow, by exact_mod_cast hhigh⟩
  · have hb' : (b : ℚ) < 0 := by exact_mod_cast hb
    rw [le_div_iff_of_neg hb', div_lt_iff_of_neg hb']
    exact ⟨by exact_mod_cast hlow, by exact_mod_cast hhigh⟩

/-- The quotient with a remainder that is not negative is one more than the quotient rounded
down when the divisor is negative and leaves a remainder. -/
theorem floors_ediv {a b : Int} (hb : b ≠ 0) :
    Floors a b (if 0 < b ∨ b ∣ a then a / b else a / b - 1) := by
  have hdivision := Int.mul_ediv_add_emod a b
  have hnonneg := Int.emod_nonneg a hb
  rw [mul_comm] at hdivision
  rcases lt_or_gt_of_ne hb with hneg | hpos
  · -- the remainder lies above the multiple of the divisor, where rounding down wants it below
    have hless := Int.emod_lt_of_neg a hneg
    refine Or.inr ⟨hneg, ?_⟩
    by_cases hdvd : b ∣ a
    · have hzero := Int.emod_eq_zero_of_dvd hdvd
      rw [if_pos (Or.inr hdvd), add_mul, one_mul]
      omega
    · have hrest : a % b ≠ 0 := fun h => hdvd (Int.dvd_of_emod_eq_zero h)
      rw [if_neg (by omega), sub_add_cancel, sub_mul, one_mul]
      omega
  · have hless := Int.emod_lt_of_pos a hpos
    refine Or.inl ⟨hpos, ?_⟩
    rw [if_pos (Or.inl hpos), add_mul, one_mul]
    omega

theorem floors_floor {a b : Int} (hb : b ≠ 0) : Floors a b ⌊(a : ℚ) / b⌋ := by
  rw [floor_eq_of_floors (floors_ediv hb)]
  exact floors_ediv hb

theorem ediv_eq_floor {a b : Int} (hb : b ≠ 0) :
    a / b = if 0 < b ∨ b ∣ a then ⌊(a : ℚ) / b⌋ else ⌊(a : ℚ) / b⌋ + 1 := by
  rw [floor_eq_of_floors (floors_ediv hb)]
  split_ifs
  · rfl
  · rw [sub_add_cancel]

/-- Quotients of 64 bits are kept as they are. -/
theorem quotient_eq {a b : Duration} (h : (a.micros / b.micros).natAbs < 2 ^ 63) :
    a.quotient b = a.micros / b.micros := by
  rw [quotient, Number.wrapBits]
  have hbits : Number.pow2 64 = 2 ^ 64 := by decide
  rw [hbits]
  exact Int.bmod_eq_of_le (by omega) (by omega)

end Duration

/-! ## Dates moved by days -/

namespace Date

/-- Adding days gives the date that lies as many days later, or there is none. -/
theorem addDays_places (d : Date) (n : Int) :
    (∃ e, d.addDays n = .ok e ∧ e.ordinal = d.ordinal + n) ∨
    (d.addDays n = .error .dateRange ∧ ∀ e : Date, e.ordinal ≠ d.ordinal + n) := by
  rcases d.addDays_cases n with hmoved | ⟨herror, hout⟩
  · exact Or.inl hmoved
  · refine Or.inr ⟨herror, fun e he => hout ?_⟩
    rw [← he]
    exact e.ordinal_bounds

/-- The days between two dates make a duration. -/
theorem exists_span (d e : Date) :
    ∃ t, Duration.ofDays (e.ordinal - d.ordinal) = .ok t ∧ t.days = e.ordinal - d.ordinal := by
  have hd := d.ordinal_bounds
  have he := e.ordinal_bounds
  have hwhole : (e.ordinal - d.ordinal) * DateTime.microsPerDay / DateTime.microsPerDay =
      e.ordinal - d.ordinal := Int.mul_ediv_cancel _ (by decide)
  have hrange : Duration.InRange ((e.ordinal - d.ordinal) * DateTime.microsPerDay) := by
    rw [Duration.inRange_iff, hwhole, maxDurationDays]
    rw [maxOrdinal] at hd he
    omega
  obtain ⟨t, ht⟩ := Duration.exists_ofMicros_iff.mpr hrange
  refine ⟨t, ht, ?_⟩
  rw [Duration.days, Duration.ofMicros_eq_ok_iff.mp ht, hwhole]

end Date

/-! ## Moments moved by microseconds -/

theorem Clock.micros_ofMicros {n : Nat} (h : (n : Int) < DateTime.microsPerDay) :
    (Clock.ofMicros n).micros = n := by
  rw [DateTime.microsPerDay] at h
  rw [Clock.micros, Clock.ofMicros]
  dsimp only
  omega

namespace DateTime

/-- The whole days of a moment are the ordinal of its date. -/
theorem micros_ediv (x : DateTime) :
    x.micros / microsPerDay = x.date.ordinal := by
  have hclock := x.clock.micros_lt
  rw [micros]
  rw [microsPerDay] at hclock ⊢
  omega

/-- A moment is found by its microseconds. -/
theorem ofMicros?_eq_some {n : Int} {y : DateTime} (h : ofMicros? n = some y) : y.micros = n := by
  obtain ⟨d, hd, rfl⟩ := Option.map_eq_some_iff.mp h
  have hday : (0 : Int) < microsPerDay := by decide
  have hnonneg := Int.emod_nonneg n hday.ne'
  have hless := Int.emod_lt_of_pos n hday
  have hclock := Clock.micros_ofMicros (n := (n % microsPerDay).toNat) (by omega)
  rw [micros, Date.ofOrdinal?_eq_some_iff.mp hd, hclock, Int.toNat_of_nonneg hnonneg]
  exact Int.ediv_mul_add_emod n microsPerDay

theorem exists_ofMicros? (y : DateTime) : ∃ z, ofMicros? y.micros = some z := by
  rw [ofMicros?, micros_ediv, Date.ofOrdinal?_eq_some_iff.mpr rfl]
  exact ⟨_, rfl⟩

/-- A number of microseconds between two moments of the calendar fits into 64 bits. -/
theorem fit?_micros {x y : DateTime} {n : Int} (h : y.micros = x.micros + n) :
    Number.fit? 64 n = some n := by
  have hx := x.date.ordinal_bounds
  have hy := y.date.ordinal_bounds
  have hxDay := x.micros_ediv
  have hyDay := y.micros_ediv
  have hbits : Number.pow2 (64 - 1) = 2 ^ 63 := rfl
  refine Number.fit?_of_natAbs_lt ?_
  rw [Date.maxOrdinal] at hx hy
  rw [microsPerDay] at hxDay hyDay
  rw [hbits]
  omega

/-- Adding microseconds stays in the calendar or fails: no sum in the calendar is refused for the
size of what is added. -/
theorem addMicros_cases (x : DateTime) (n : Int) :
    (∃ y, x.addMicros n = .ok y ∧ y.micros = x.micros + n) ∨
    (x.addMicros n = .error .dateRange ∧ ∀ y : DateTime, y.micros ≠ x.micros + n) := by
  unfold addMicros
  split
  · next y hy =>
    obtain ⟨m, hm, hy⟩ := Option.bind_eq_some_iff.mp hy
    obtain rfl : n = m := by
      unfold Number.fit? at hm
      split at hm
      · exact Option.some.inj hm
      · cases hm
    exact Or.inl ⟨y, rfl, ofMicros?_eq_some hy⟩
  · next hnone =>
    refine Or.inr ⟨rfl, fun y hy => ?_⟩
    obtain ⟨z, hz⟩ := y.exists_ofMicros?
    rw [fit?_micros hy, Option.bind_some, ← hy, hz] at hnone
    cases hnone

/-- The microseconds between two moments make a duration. -/
theorem exists_span (x y : DateTime) :
    ∃ t, Duration.ofMicros (y.micros - x.micros) = .ok t ∧ t.micros = y.micros - x.micros := by
  have hx := x.date.ordinal_bounds
  have hy := y.date.ordinal_bounds
  have hxDay := x.micros_ediv
  have hyDay := y.micros_ediv
  have hrange : Duration.InRange (y.micros - x.micros) := by
    rw [Duration.inRange_iff, maxDurationDays]
    rw [Date.maxOrdinal] at hx hy
    rw [microsPerDay] at hxDay hyDay ⊢
    omega
  obtain ⟨t, ht⟩ := Duration.exists_ofMicros_iff.mpr hrange
  exact ⟨t, ht, Duration.ofMicros_eq_ok_iff.mp ht⟩

end DateTime

end FilterLang
