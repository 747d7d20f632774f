import FilterLang.Proofs.Calendar.Durations
import FilterLang.Proofs.Value.Equality
import FilterLang.Proofs.Value.Operands
import FilterLang.Proofs.Value.Soundness
import Mathlib
/-!
Durations in the language are whole numbers of microseconds.

The fields of a duration add up to its length (`readsTotal`). Sums, differences and the unary
operators compute with lengths and fail only when the result is too long (`totals_computed`);
comparisons, truth and hashing look at lengths alone (`duration_exact`). Floor division gives the
quotient rounded down while the divisor is positive or leaves no remainder, and one more otherwise
(`duration_quotient`).
-/

namespace FilterLang

open Fallible

/-- Whether a comparison holds of two whole numbers. -/
def Relation.Holds : Relation → Int → Int → Prop
  | eq, m, n => m = n
  | ne, m, n => m ≠ n
  | lt, m, n => m < n
  | le, m, n => m ≤ n
  | gt, m, n => m > n
  | ge, m, n => m ≥ n

theorem Relation.accepts_compare (r : Relation) (m n : Int) :
    r.accepts (compare m n) = true ↔ r.Holds m n := by
  rcases lt_trichotomy m n with hlt | rfl | hgt
  · rw [compare_lt_iff_lt.mpr hlt]
    cases r <;> simp [accepts, Holds] <;> omega
  · rw [compare_eq_iff_eq.mpr rfl]
    cases r <;> simp [accepts, Holds]
  · rw [compare_gt_iff_gt.mpr hgt]
    cases r <;> simp [accepts, Holds] <;> omega

/-! ## Fields -/

namespace Temporal

/-- The fields of a duration read as days, as seconds of a day and as microseconds of a second,
which add up to a number of microseconds. -/
def ReadsTotal (t : Temporal) (n : Int) : Prop :=
  ∃ days seconds micros : Int, t.read? "days" = some days ∧ t.read? "seconds" = some seconds ∧
    t.read? "microseconds" = some micros ∧ (0 ≤ seconds ∧ seconds < 86400) ∧
    (0 ≤ micros ∧ micros < 1000000) ∧ days * 86400000000 + seconds * 1000000 + micros = n

theorem readsTotal (d : Duration) : (duration d).ReadsTotal d.micros := by
  have hseconds := d.seconds_range
  have hmicros := d.microseconds_range
  have hdays : d.days.natAbs ≤ 2 ^ 53 := by
    have hrange : -maxDurationDays ≤ d.days ∧ d.days ≤ maxDurationDays := d.days_range
    rw [maxDurationDays] at hrange
    omega
  exact ⟨d.days, d.seconds, d.microseconds, read?_of_field? rfl hdays,
    read?_of_field? rfl (by omega), read?_of_field? rfl (by omega), hseconds, hmicros, d.parts_sum⟩

end Temporal

namespace Value

/-! ## Lengths of results -/

/-- The outcome of a computation is the duration of a number of microseconds, and a `ValueError`
when that is too long for a duration. -/
structure Totals (site : Identity) (n : Int) (outcome : Outcome Value) : Prop where
  value : ∀ v, outcome = .ok v ↔ ∃ d : Duration, d.micros = n ∧ v = .temporal site (.duration d)
  succeeds : (∃ v, outcome = .ok v) ↔ Duration.InRange n
  kind : ∀ error, outcome = .error error → error.kind = "ValueError"

theorem totals_computed (site : Identity) (n : Int) :
    Totals site n (computed site .duration (Duration.ofMicros n)) := by
  have hmade := Duration.ofMicros_made n
  generalize hresult : Duration.ofMicros n = result at hmade
  cases hmade with
  | @fits d hrange hlength =>
    refine ⟨fun v => ?_, iff_of_true ⟨_, rfl⟩ hrange, fun _ herror => nomatch herror⟩
    constructor
    · intro hv
      cases hv
      exact ⟨d, hlength, rfl⟩
    · rintro ⟨d', hlength', rfl⟩
      rw [duration_ext (hlength'.trans hlength.symm)]
      rfl
  | tooLong hrange =>
    refine ⟨fun v => iff_of_false (fun hv => nomatch hv) ?_,
      iff_of_false (fun ⟨_, hv⟩ => nomatch hv) hrange, ?_⟩
    · rintro ⟨d, rfl, -⟩
      exact hrange d.inRange_micros
    · rintro error herror
      cases herror
      rfl

/-! ## Comparisons, truth and hashing -/

section Observing

variable (host : Host) (site i j : Identity) (a b : Duration)

theorem compare_durations (r : Relation) :
    Answers (compareWith host site r (temporal i (.duration a)) (temporal j (.duration b)))
      (r.Holds a.micros b.micros) := by
  refine ⟨r.accepts (compare a.micros b.micros), ?_, r.accepts_compare a.micros b.micros⟩
  have hscalar : scalarCompare? r (temporal i (.duration a)) (temporal j (.duration b)) = none := by
    cases r <;> rfl
  rw [compareWith_eq, hscalar]
  show compareByMethods host site r (temporal i (.duration a)) (temporal j (.duration b)) = _
  rw [compareByMethods_eq, askOperator_temporal]
  rfl

theorem bool_duration (runBody : Expr → Table Value → Outcome Value) :
    Answers (callWith host site runBody (.cls .bool) [temporal i (.duration a)] [])
      (a.micros ≠ 0) :=
  ⟨decide (a.micros ≠ 0), rfl, decide_eq_true_iff⟩

theorem hashKey_durations (h : a.micros = b.micros) :
    ∃ key, (temporal i (.duration a)).hashKey host site = .ok key ∧
      (temporal j (.duration b)).hashKey host site = .ok key := by
  rw [duration_ext h]
  exact ⟨_, rfl, rfl⟩

end Observing

/-- Durations are their lengths in microseconds. -/
theorem duration_exact (host : Host) (site i j : Identity)
    (runBody : Expr → Table Value → Outcome Value) :
    (∀ n : Int, ((∃ d, Duration.ofMicros n = .ok d) ↔ Duration.InRange n) ∧
      ∀ d, Duration.ofMicros n = .ok d → d.micros = n ∧ (Temporal.duration d).ReadsTotal n) ∧
    ∀ a b : Duration,
      Totals site (a.micros + b.micros)
        (binary host site .add (temporal i (.duration a)) (temporal j (.duration b))) ∧
      Totals site (a.micros - b.micros)
        (binary host site .sub (temporal i (.duration a)) (temporal j (.duration b))) ∧
      Totals site (-a.micros) (unary host site .negate (temporal i (.duration a))) ∧
      Totals site a.micros (unary host site .plus (temporal i (.duration a))) ∧
      Totals site |a.micros|
        (callWith host site runBody (.function .abs) [temporal i (.duration a)] []) ∧
      (∀ r, Answers (compareWith host site r (temporal i (.duration a)) (temporal j (.duration b)))
        (r.Holds a.micros b.micros)) ∧
      (a.micros = b.micros → ∃ key, (temporal i (.duration a)).hashKey host site = .ok key ∧
        (temporal j (.duration b)).hashKey host site = .ok key) ∧
      Answers (callWith host site runBody (.cls .bool) [temporal i (.duration a)] [])
        (a.micros ≠ 0) := by
  refine ⟨fun n => ⟨Duration.exists_ofMicros_iff, ?_⟩, fun a b => ⟨?_, ?_, ?_, ?_, ?_, ?_, ?_, ?_⟩⟩
  · intro d hd
    have hlength := Duration.ofMicros_eq_ok_iff.mp hd
    exact ⟨hlength, hlength ▸ Temporal.readsTotal d⟩
  · rw [duration_add]
    exact totals_computed site _
  · rw [duration_sub]
    exact totals_computed site _
  · rw [duration_negate]
    exact totals_computed site _
  · rw [duration_plus]
    exact totals_computed site _
  · rw [duration_abs]
    exact totals_computed site _
  · exact compare_durations host site i j a b
  · exact hashKey_durations host site i j a b
  · exact bool_duration host site i a runBody

/-! ## Quotients -/

/-- The floor division of two durations is their quotient rounded down, and one more when the
divisor is negative and leaves a remainder. -/
theorem duration_quotient (host : Host) (site i j : Identity) (a b : Duration)
    (hb : b.micros ≠ 0) (hexact : |⌊(a.micros : ℚ) / b.micros⌋| ≤ 2 ^ 53) :
    Duration.Floors a.micros b.micros ⌊(a.micros : ℚ) / b.micros⌋ ∧
    (int ⌊(a.micros : ℚ) / b.micros⌋).integer? = some ⌊(a.micros : ℚ) / b.micros⌋ ∧
    binary host site .floorDiv (temporal i (.duration a)) (temporal j (.duration b)) =
      .ok (int (if 0 < b.micros ∨ b.micros ∣ a.micros then ⌊(a.micros : ℚ) / b.micros⌋
        else ⌊(a.micros : ℚ) / b.micros⌋ + 1)) := by
  have hfloors := Duration.floors_floor (a := a.micros) hb
  have hquotient := Duration.ediv_eq_floor (a := a.micros) hb
  generalize ⌊(a.micros : ℚ) / b.micros⌋ = q at hexact hfloors hquotient ⊢
  rw [abs_le] at hexact
  refine ⟨hfloors, Temporal.integer?_int (by omega), ?_⟩
  have hbits : (a.micros / b.micros).natAbs < 2 ^ 63 := by
    rw [hquotient]
    split_ifs <;> omega
  rw [duration_floorDiv host site i j a b hb, Duration.quotient_eq hbits, hquotient]

def sevenBack : Duration := ⟨-7, by decide⟩

def twoMicros : Duration := ⟨2, by decide⟩

/-- A negative dividend is rounded down. -/
theorem duration_quotient_sevenBack :
    binary .idle (.root 0) .floorDiv (temporal (.root 1) (.duration sevenBack))
      (temporal (.root 2) (.duration twoMicros)) = .ok (int (-4)) := by
  have hfloor : ⌊(sevenBack.micros : ℚ) / twoMicros.micros⌋ = -4 :=
    Duration.floor_eq_of_floors (by unfold Duration.Floors; decide)
  have h := duration_quotient .idle (.root 0) (.root 1) (.root 2) sevenBack twoMicros (by decide)
    (by rw [hfloor]; decide)
  rw [hfloor] at h
  exact h.2.2

def oneDay : Duration := ⟨86400000000, by decide⟩

def fiveHoursBack : Duration := ⟨-18000000000, by decide⟩

/-- A negative divisor that leaves a remainder is not rounded down. -/
theorem duration_quotient_fiveHoursBack :
    Duration.Floors oneDay.micros fiveHoursBack.micros (-5) ∧
    binary .idle (.root 0) .floorDiv (temporal (.root 1) (.duration oneDay))
      (temporal (.root 2) (.duration fiveHoursBack)) = .ok (int (-4)) ∧
    int (-4) ≠ int (-5) := by
  refine ⟨by unfold Duration.Floors; decide, ?_, ?_⟩
  · rw [duration_floorDiv _ _ _ _ _ _ (by decide), Duration.quotient_eq (by decide)]
    rfl
  · intro h
    have hread := congrArg integer? h
    rw [Temporal.integer?_int (by decide), Temporal.integer?_int (by decide)] at hread
    cases hread

end Value

end FilterLang
