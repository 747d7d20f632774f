import FilterLang.Proofs.Value.Agreement
import FilterLang.Value.Call
import Mathlib
/-!
Operators on calendar values: which operand answers, and what it computes.

The left operand is asked first. When it does not know the right one, the right one is asked
(`binary_left`, `binary_right`). So every operator on calendar values is one computation on the
calendar whose result is a new value (`computed`), and the lemmas of this module say which.
-/

namespace FilterLang.Value

open Fallible

/-- The outcome of a computation on the calendar whose result is made into a value. -/
def computed {α : Type} (site : Identity) (wrap : α → Temporal) (result : Except CalendarError α) :
    Outcome Value :=
  (Outcome.ofCalendar result).map fun a => .temporal site (wrap a)

@[simp] theorem computed_ok {α : Type} (site : Identity) (wrap : α → Temporal) (a : α) :
    computed site wrap (.ok a) = .ok (.temporal site (wrap a)) := rfl

@[simp] theorem computed_error {α : Type} (site : Identity) (wrap : α → Temporal)
    (fault : CalendarError) :
    computed site wrap (.error fault) = .error (.ofCalendar fault) := rfl

/-! ## The operand that answers -/

/-- An outcome answers when it is no refusal of the operand. -/
def Answering (x : Outcome Value) : Prop :=
  ∀ v, x = .ok v → v.answer? = some v

theorem answering_computed {α : Type} {site : Identity} {wrap : α → Temporal}
    {result : Except CalendarError α} : Answering (computed site wrap result) := by
  intro v hv
  cases result with
  | error fault => cases hv
  | ok a =>
    cases hv
    rfl

section Asking

variable {host : Host} {site : Identity} {op : BinaryOp} {a b : Value} {m : InstanceMethod}
  {x : Outcome Value}

/-- Nothing is asked after an answer. -/
theorem answerOr_of_answering (hx : Answering x) (next : Outcome Value) :
    answerOr (x >>= fun v => .ok v.answer?) next = x := by
  cases x with
  | error e => rfl
  | ok v =>
    rw [ok_bind, hx v rfl]
    rfl

/-- The left operand answers. -/
theorem binary_left (hx : Answering x) (hkinds : nativeArith site op a b = .ok none)
    (hm : a.special? host op.method = some m) (hcall : m.call host site a [b] = x) :
    binary host site op a b = x := by
  rw [binary_eq, hkinds, askOperator_eq, hm]
  dsimp only
  rw [hcall]
  exact answerOr_of_answering hx _

/-- The left operand does not answer, and the right one does. -/
theorem binary_right (hx : Answering x) (hkinds : nativeArith site op a b = .ok none)
    (hleft : askOperator host site a op.method b = .ok none)
    (hrepeated : nativeReflected site op a b = .ok none)
    (hm : b.special? host op.reflected = some m) (hcall : m.call host site b [a] = x) :
    binary host site op a b = x := by
  rw [binary_eq, hkinds, hleft, hrepeated, askOperator_eq, hm]
  dsimp only
  rw [hcall]
  exact answerOr_of_answering hx _

end Asking

variable (host : Host) (site i j : Identity)

/-! ## Durations -/

section Durations

variable (a b : Duration)

theorem duration_add :
    binary host site .add (temporal i (.duration a)) (temporal j (.duration b)) =
      computed site .duration (Duration.ofMicros (a.micros + b.micros)) :=
  binary_left answering_computed rfl rfl rfl

theorem duration_sub :
    binary host site .sub (temporal i (.duration a)) (temporal j (.duration b)) =
      computed site .duration (Duration.ofMicros (a.micros - b.micros)) :=
  binary_left answering_computed rfl rfl rfl

theorem duration_negate :
    unary host site .negate (temporal i (.duration a)) =
      computed site .duration (Duration.ofMicros (-a.micros)) := rfl

theorem duration_plus :
    unary host site .plus (temporal i (.duration a)) =
      computed site .duration (Duration.ofMicros a.micros) := rfl

theorem duration_abs (runBody : Expr → Table Value → Outcome Value) :
    callWith host site runBody (.function .abs) [temporal i (.duration a)] [] =
      computed site .duration (Duration.ofMicros |a.micros|) := by
  rw [Int.abs_eq_natAbs]
  rfl

theorem duration_floorDiv (hb : b.micros ≠ 0) :
    binary host site .floorDiv (temporal i (.duration a)) (temporal j (.duration b)) =
      .ok (.int (a.quotient b)) := by
  have hdivide : DurationMethod.divide site true (temporal i (.duration a))
      (temporal j (.duration b)) = .ok (.int (a.quotient b)) := by
    simp only [DurationMethod.divide, receiver, duration?, ok_bind, if_neg hb]
    rfl
  refine binary_left ?_ rfl rfl hdivide
  intro v hv
  cases hv
  rfl

end Durations

/-! ## Dates and moments -/

section Dates

variable (d e : Date) (t : Duration)

theorem date_add :
    binary host site .add (temporal i (.date d)) (temporal j (.duration t)) =
      computed site .date (d.addDays t.days) := by
  rw [← mul_one t.days]
  exact binary_left answering_computed rfl rfl rfl

theorem date_radd :
    binary host site .add (temporal j (.duration t)) (temporal i (.date d)) =
      computed site .date (d.addDays t.days) := by
  rw [← mul_one t.days]
  exact binary_right answering_computed rfl rfl rfl rfl rfl

theorem date_sub :
    binary host site .sub (temporal i (.date d)) (temporal j (.duration t)) =
      computed site .date (d.addDays (-t.days)) := by
  rw [← mul_neg_one t.days]
  exact binary_left answering_computed rfl rfl rfl

theorem date_difference :
    binary host site .sub (temporal i (.date d)) (temporal j (.date e)) =
      computed site .duration (Duration.ofDays (d.ordinal - e.ordinal)) :=
  binary_left answering_computed rfl rfl rfl

end Dates

section Moments

variable (x y : DateTime) (t : Duration)

theorem datetime_add :
    binary host site .add (temporal i (.datetime x)) (temporal j (.duration t)) =
      computed site .datetime (x.addMicros t.micros) := by
  rw [← mul_one t.micros]
  exact binary_left answering_computed rfl rfl rfl

theorem datetime_radd :
    binary host site .add (temporal j (.duration t)) (temporal i (.datetime x)) =
      computed site .datetime (x.addMicros t.micros) := by
  rw [← mul_one t.micros]
  exact binary_right answering_computed rfl rfl rfl rfl rfl

theorem datetime_sub :
    binary host site .sub (temporal i (.datetime x)) (temporal j (.duration t)) =
      computed site .datetime (x.addMicros (-t.micros)) := by
  rw [← mul_neg_one t.micros]
  exact binary_left answering_computed rfl rfl rfl

theorem datetime_difference :
    binary host site .sub (temporal i (.datetime x)) (temporal j (.datetime y)) =
      computed site .duration (Duration.ofMicros (x.micros - y.micros)) :=
  binary_left answering_computed rfl rfl rfl

end Moments

end FilterLang.Value
