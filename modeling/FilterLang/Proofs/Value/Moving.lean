import FilterLang.Proofs.Calendar.Durations
import FilterLang.Proofs.Value.Equality
import FilterLang.Proofs.Value.Operands
import FilterLang.Proofs.Value.Soundness
import Mathlib
/-!
Durations move dates and moments along a line.

Dates lie at their ordinals and durations move them by whole days. Moments lie at their
microseconds and durations move them by their length. Either way a sum is the value that lies as
much further, or there is none and the sum fails (`LandsAt`). Moving back undoes the move, and the
difference of two values moves one to the other (`DurationTorsor`). Both kinds are a `Line`, and
the laws are proved once for every line.
-/

namespace FilterLang.Value

open Fallible

/-- The outcome of a move to a place: the value that lies there, and a `ValueError` when none
does. -/
inductive LandsAt {α : Type} (site : Identity) (value : α → Temporal) (place : α → Int) (n : Int) :
    Outcome Value → Prop
  | within {a : α} (hplace : place a = n) :
    LandsAt site value place n (.ok (.temporal site (value a)))
  | outside {error : EvalError} (hout : ∀ a, place a ≠ n) (hkind : error.kind = "ValueError") :
    LandsAt site value place n (.error error)

/-- Values that lie at places act with durations of a length as points do with vectors: sums and
differences land where the length says, sums do not depend on the order, moving back undoes a sum,
and the difference of two values moves one to the other. -/
structure DurationTorsor {α : Type} (host : Host) (value : α → Temporal) (place : α → Int)
    (length : Duration → Int) : Prop where
  add : ∀ (site i j : Identity) (a : α) (t : Duration),
    LandsAt site value place (place a + length t)
      (binary host site .add (temporal i (value a)) (temporal j (.duration t)))
  sub : ∀ (site i j : Identity) (a : α) (t : Duration),
    LandsAt site value place (place a - length t)
      (binary host site .sub (temporal i (value a)) (temporal j (.duration t)))
  comm : ∀ (site i j : Identity) (a : α) (t : Duration),
    binary host site .add (temporal j (.duration t)) (temporal i (value a)) =
      binary host site .add (temporal i (value a)) (temporal j (.duration t))
  cancel : ∀ (site site' i j : Identity) (a : α) (t : Duration) (v : Value),
    binary host site .add (temporal i (value a)) (temporal j (.duration t)) = .ok v →
      binary host site' .sub v (temporal j (.duration t)) = .ok (temporal site' (value a))
  reach : ∀ (site site' i j : Identity) (a b : α), ∃ t : Duration,
    binary host site .sub (temporal j (value b)) (temporal i (value a)) =
        .ok (temporal site (.duration t)) ∧
      binary host site' .add (temporal i (value a)) (temporal site (.duration t)) =
        .ok (temporal site' (value b))

/-! ## Lines -/

/-- A kind of calendar value that durations move: where its values lie, how far a duration moves
them, and the computations of the calendar that its operators make. -/
structure Line (α : Type) where
  value : α → Temporal
  place : α → Int
  length : Duration → Int
  move : α → Int → Except CalendarError α
  span : Int → Except CalendarError Duration
  place_injective : ∀ {a b : α}, place a = place b → a = b
  move_cases : ∀ (a : α) (n : Int),
    (∃ b, move a n = .ok b ∧ place b = place a + n) ∨
      (move a n = .error .dateRange ∧ ∀ b, place b ≠ place a + n)
  exists_span : ∀ a b : α, ∃ t, span (place b - place a) = .ok t ∧ length t = place b - place a
  add_eq : ∀ (host : Host) (site i j : Identity) (a : α) (t : Duration),
    binary host site .add (temporal i (value a)) (temporal j (.duration t)) =
      computed site value (move a (length t))
  radd_eq : ∀ (host : Host) (site i j : Identity) (a : α) (t : Duration),
    binary host site .add (temporal j (.duration t)) (temporal i (value a)) =
      computed site value (move a (length t))
  sub_eq : ∀ (host : Host) (site i j : Identity) (a : α) (t : Duration),
    binary host site .sub (temporal i (value a)) (temporal j (.duration t)) =
      computed site value (move a (-length t))
  difference_eq : ∀ (host : Host) (site i j : Identity) (a b : α),
    binary host site .sub (temporal i (value a)) (temporal j (value b)) =
      computed site .duration (span (place a - place b))

namespace Line

variable {α : Type} (l : Line α) {host : Host} {site : Identity} {a b : α} {n : Int}
  {outcome : Outcome Value}

theorem lands_move : LandsAt site l.value l.place (l.place a + n)
    (computed site l.value (l.move a n)) := by
  rcases l.move_cases a n with ⟨b, hmove, hplace⟩ | ⟨hmove, hout⟩
  · rw [hmove, computed_ok]
    exact .within hplace
  · rw [hmove, computed_error]
    exact .outside hout rfl

/-- A move to the place of a value lands at this value. -/
theorem eq_of_lands (h : LandsAt site l.value l.place n outcome) (ha : l.place a = n) :
    outcome = .ok (temporal site (l.value a)) := by
  cases h with
  | within hplace => rw [l.place_injective (hplace.trans ha.symm)]
  | outside hout hkind => exact absurd ha (hout a)

theorem lands_add (host : Host) (site i j : Identity) (a : α) (t : Duration) :
    LandsAt site l.value l.place (l.place a + l.length t)
      (binary host site .add (temporal i (l.value a)) (temporal j (.duration t))) := by
  rw [l.add_eq]
  exact l.lands_move

theorem lands_sub (host : Host) (site i j : Identity) (a : α) (t : Duration) :
    LandsAt site l.value l.place (l.place a - l.length t)
      (binary host site .sub (temporal i (l.value a)) (temporal j (.duration t))) := by
  rw [l.sub_eq, sub_eq_add_neg]
  exact l.lands_move

/-- A sum that there is lies as much further as the duration is long. -/
theorem place_of_add {i j : Identity} {t : Duration} {v : Value}
    (h : binary host site .add (temporal i (l.value a)) (temporal j (.duration t)) = .ok v) :
    ∃ b, v = temporal site (l.value b) ∧ l.place b = l.place a + l.length t := by
  have hlands := l.lands_add host site i j a t
  rw [h] at hlands
  cases hlands with
  | within hplace => exact ⟨_, rfl, hplace⟩

/-- The difference of two values is a duration, as long as they lie apart. -/
theorem exists_difference (host : Host) (site i j : Identity) (a b : α) :
    ∃ t : Duration, binary host site .sub (temporal j (l.value b)) (temporal i (l.value a)) =
        .ok (temporal site (.duration t)) ∧ l.length t = l.place b - l.place a := by
  obtain ⟨t, hspan, hlength⟩ := l.exists_span a b
  refine ⟨t, ?_, hlength⟩
  rw [l.difference_eq, hspan, computed_ok]

theorem torsor (host : Host) : DurationTorsor host l.value l.place l.length where
  add := l.lands_add host
  sub := l.lands_sub host
  comm := by
    intro site i j a t
    rw [l.radd_eq, l.add_eq]
  cancel := by
    intro site site' i j a t v hsum
    -- a difference takes the length away, it does not add the length of the negated duration
    obtain ⟨b, rfl, hplace⟩ := l.place_of_add hsum
    exact l.eq_of_lands (l.lands_sub host site' site j b t) (by omega)
  reach := by
    intro site site' i j a b
    obtain ⟨t, hdifference, hlength⟩ := l.exists_difference host site i j a b
    exact ⟨t, hdifference, l.eq_of_lands (l.lands_add host site' i site a t) (by omega)⟩

/-- A sum less the value that was moved is as long as the duration. -/
theorem difference_of_add {i j : Identity} {t : Duration} {v : Value}
    (h : binary host site .add (temporal i (l.value a)) (temporal j (.duration t)) = .ok v)
    (site' k : Identity) :
    ∃ t' : Duration, binary host site' .sub v (temporal k (l.value a)) =
        .ok (temporal site' (.duration t')) ∧ l.length t' = l.length t := by
  obtain ⟨b, rfl, hplace⟩ := l.place_of_add h
  obtain ⟨t', hdifference, hlength⟩ := l.exists_difference host site' k site a b
  exact ⟨t', hdifference, by omega⟩

end Line

/-! ## Dates and moments -/

/-- Dates lie at their ordinals, and durations move them by whole days. -/
def dates : Line Date where
  value := .date
  place := Date.ordinal
  length := Duration.days
  move := Date.addDays
  span := Duration.ofDays
  place_injective := Date.ordinal_injective
  move_cases := Date.addDays_places
  exists_span := Date.exists_span
  add_eq := date_add
  radd_eq := date_radd
  sub_eq := date_sub
  difference_eq := date_difference

/-- Moments lie at their microseconds, and durations move them by their length. -/
def moments : Line DateTime where
  value := .datetime
  place := DateTime.micros
  length := Duration.micros
  move := DateTime.addMicros
  span := Duration.ofMicros
  place_injective := DateTime.micros_injective
  move_cases := DateTime.addMicros_cases
  exists_span := DateTime.exists_span
  add_eq := datetime_add
  radd_eq := datetime_radd
  sub_eq := datetime_sub
  difference_eq := datetime_difference

/-- What `toordinal` answers reads as a number. -/
def HasOrdinal (host : Host) (runBody : Expr → Table Value → Outcome Value) (v : Value)
    (n : Int) : Prop :=
  ∀ site : Identity, ∃ answer : Value,
    (v.getAttr host site "toordinal" >>= fun m => callWith host site runBody m [] []) = .ok answer ∧
      answer.integer? = some n

theorem hasOrdinal_date (host : Host) (runBody : Expr → Table Value → Outcome Value)
    (i : Identity) (d : Date) :
    HasOrdinal host runBody (temporal i (.date d)) d.ordinal := by
  intro site
  exact ⟨.int d.ordinal, rfl, Temporal.integer?_int d.natAbs_ordinal_le⟩

/-- Dates and moments act with durations as points do with vectors, dates by whole days and
moments to the microsecond. -/
theorem calendar_torsor (host : Host) (runBody : Expr → Table Value → Outcome Value) :
    DurationTorsor host .date Date.ordinal (fun t => ⌊(t.micros : ℚ) / 86400000000⌋) ∧
    (∀ (site i j : Identity) (d : Date) (t : Duration) (v : Value),
      binary host site .add (temporal i (.date d)) (temporal j (.duration t)) = .ok v →
        ∃ n, HasOrdinal host runBody (temporal i (.date d)) n ∧
          HasOrdinal host runBody v (n + ⌊(t.micros : ℚ) / 86400000000⌋)) ∧
    DurationTorsor host .datetime DateTime.micros Duration.micros ∧
    ∀ (site site' i j : Identity) (x : DateTime) (t : Duration) (v : Value),
      binary host site .add (temporal i (.datetime x)) (temporal j (.duration t)) = .ok v →
        binary host site' .sub v (temporal i (.datetime x)) =
          .ok (temporal site' (.duration t)) := by
  have hdays : (fun t : Duration => ⌊(t.micros : ℚ) / 86400000000⌋) = Duration.days :=
    funext fun t => Duration.floor_days t.micros
  refine ⟨?_, ?_, moments.torsor host, ?_⟩
  · rw [hdays]
    exact dates.torsor host
  · intro site i j d t v hsum
    obtain ⟨e, rfl, hplace⟩ := dates.place_of_add hsum
    refine ⟨d.ordinal, hasOrdinal_date host runBody i d, ?_⟩
    have hordinal : e.ordinal = d.ordinal + ⌊(t.micros : ℚ) / 86400000000⌋ :=
      hplace.trans (congrArg (d.ordinal + ·) (congrFun hdays t).symm)
    rw [← hordinal]
    exact hasOrdinal_date host runBody site e
  · intro site site' i j x t v hsum
    obtain ⟨t', hdifference, hlength⟩ := moments.difference_of_add hsum site' i
    rw [duration_ext hlength] at hdifference
    exact hdifference

end FilterLang.Value
