import FilterLang.Proofs.Calendar.Shift
import FilterLang.Proofs.Value.Alike
import FilterLang.Proofs.Value.Binding
import FilterLang.Proofs.Value.Operands
import FilterLang.Proofs.Value.Soundness
import Mathlib
/-!
Offsets in the language: how they are made, and what adding them to a date does.

Keywords say a shift, and the offset that a call makes of them makes that shift
(`offsetOf_makes`). A date does not know offsets, so the operators hand the date over to the
offset, whichever operand it is (`add_offset`, `offset_add`, `sub_offset`). Together this is the
arithmetic of offsets (`relativedelta_arithmetic`).
-/

namespace FilterLang

open Fallible

/-! ## Shifts said by keywords -/

namespace Shift

/-- The keywords of a shift. -/
def names : List String := ["years", "months", "days", "weeks", "weekday"]

/-- The number under a keyword, zero where it is left out. -/
def part (keywords : List (String × Int)) (name : String) : Int :=
  (Table.get? keywords name).getD 0

def ofKeywords (keywords : List (String × Int)) : Shift where
  months := 12 * part keywords "years" + part keywords "months"
  days := part keywords "days" + 7 * part keywords "weeks"
  weekday := Table.get? keywords "weekday"

/-- The outcome of a computation in the language is what a shift does to a date: the dates that it
leads to are its values, and it is a `ValueError` when the shift leaves the calendar. -/
structure Gives (s : Shift) (d : Date) (wrap : Date → Value) (outcome : Outcome Value) : Prop where
  leads : ∀ v, outcome = .ok v ↔ ∃ e, s.Leads d e ∧ v = wrap e
  leaves : (∃ error, outcome = .error error) ↔ s.Leaves d
  kind : ∀ error, outcome = .error error → error.kind = "ValueError"

theorem Answered.gives {s : Shift} {d : Date} {wrap : Date → Value}
    {answer : Except CalendarError Date} (h : s.Answered d answer) :
    s.Gives d wrap ((Outcome.ofCalendar answer).map wrap) := by
  cases h with
  | @leads e h =>
    refine ⟨fun v => ?_, iff_of_false (fun ⟨_, herror⟩ => nomatch herror) h.not_leaves,
      fun _ herror => nomatch herror⟩
    constructor
    · intro hv
      cases hv
      exact ⟨e, h, rfl⟩
    · rintro ⟨e', h', rfl⟩
      rw [h'.unique h]
      rfl
  | leaves h hfault =>
    refine ⟨fun v => iff_of_false (fun hv => nomatch hv) ?_, iff_of_true ⟨_, rfl⟩ h, ?_⟩
    · rintro ⟨e, hleads, -⟩
      exact hleads.not_leaves h
    · rintro error herror
      cases herror
      exact EvalError.kind_ofCalendar hfault

end Shift

/-! ## Making an offset -/

namespace Temporal

def offsetSignature : Signature :=
  (creation? .relativedelta).getD {}

def shiftArguments (keywords : List (String × Int)) : List (String × Value) :=
  keywords.map fun k => (k.1, .int k.2)

section Arguments

variable {keywords : List (String × Int)} (hnodup : (keywords.map (·.1)).Nodup)
  (hnames : ∀ k ∈ keywords, k.1 ∈ Shift.names)

include hnodup in
/-- Keywords with the names of parameters of an offset are arguments of it. -/
theorem offset_fits (hdeclared : ∀ k ∈ keywords, k.1 ∈ offsetSignature.params.map (·.name)) :
    (Call.ofSignature offsetSignature [] (shiftArguments keywords)).Fits := by
  have hkeys : (shiftArguments keywords).map (·.1) = keywords.map (·.1) := by
    rw [shiftArguments, List.map_map]
    rfl
  refine ⟨?_, ?_, ?_, ?_⟩
  · rintro j name ⟨value, i, p, hkeyword, -, -, hpositional | hmem⟩
    · exact absurd hpositional.2 (Nat.not_lt_zero i)
    · -- the keyword would be given twice
      have hj : (keywords.map (·.1))[j]? = some name := by
        rw [← hkeys, List.getElem?_map]
        exact congrArg (Option.map (·.1)) hkeyword
      have hmem : name ∈ (keywords.map (·.1)).take j := by
        rw [← hkeys, ← List.map_take]
        exact hmem
      obtain ⟨i, hi⟩ := List.mem_iff_getElem?.mp hmem
      rw [List.getElem?_take] at hi
      split at hi
      · next hij =>
        have hlength := (List.getElem?_eq_some_iff.mp hj).1
        exact List.nodup_iff_getElem?_ne_getElem?.mp hnodup i j hij hlength (hi.trans hj.symm)
      · cases hi
  · rintro i name ⟨p, hp, -, hlacks⟩
    have hdefault : ∀ p ∈ offsetSignature.params, p.default.isSome = true := by decide
    have hsome := hdefault p (List.mem_of_getElem? hp)
    rw [(Option.or_eq_none_iff.mp hlacks).2] at hsome
    cases hsome
  · exact fun hoverflows => absurd hoverflows.1 (Nat.not_lt_zero _)
  · rintro j name ⟨⟨value, hkeyword⟩, hstray, -⟩
    have hmem : name ∈ keywords.map (·.1) := by
      rw [← hkeys]
      exact List.mem_map_of_mem (List.mem_of_getElem? hkeyword)
    obtain ⟨k, hk, rfl⟩ := List.mem_map.mp hmem
    exact hstray (hdeclared k hk)

include hnodup in
/-- Such keywords are bound, each to the parameter of its name. -/
theorem bind_offset (hdeclared : ∀ k ∈ keywords, k.1 ∈ offsetSignature.params.map (·.name)) :
    ∃ b, offsetSignature.bind Class.relativedelta.name [] (shiftArguments keywords) = .ok b ∧
      (Call.ofSignature offsetSignature [] (shiftArguments keywords)).Carried b := by
  have hparams : (offsetSignature.params.map (·.name)).Nodup := by decide
  have hanswered := Signature.bind_answered hparams (Nat.zero_le _) [] (shiftArguments keywords)
    Class.relativedelta.name
  obtain ⟨b, hb⟩ := hanswered.ok_iff.mpr (offset_fits hnodup hdeclared)
  rw [hb] at hanswered
  exact ⟨b, hb, hanswered.carried⟩

variable {b : Bound}
  (hb : (Call.ofSignature offsetSignature [] (shiftArguments keywords)).Carried b)

include hb in
/-- A parameter has the number under its name, or its default. -/
theorem get_of_carried {i : Nat} {name : String} {default : Value}
    (hp : offsetSignature.params[i]? = some ⟨name, some default⟩) :
    b.get name = ((Table.get? keywords name).map .int).getD default := by
  have hposition : (Call.ofSignature offsetSignature [] (shiftArguments keywords)).byPosition? i =
      none := if_neg (Nat.not_lt_zero i)
  have harguments : Table.get? (shiftArguments keywords) name =
      (Table.get? keywords name).map .int := Table.get?_map (fun _ => Value.int) keywords name
  have hget := hb.get i _ hp
  rw [Call.given?, hposition, Option.none_or] at hget
  apply Option.some.inj
  calc some (b.get name) = (Table.get? (shiftArguments keywords) name).or (some default) := hget
    _ = some (((Table.get? keywords name).map .int).getD default) := by
      rw [harguments]
      cases Table.get? keywords name <;> rfl

variable (hexact : ∀ k ∈ keywords, k.2.natAbs ≤ 2 ^ 53)

include hexact

omit hb in
theorem natAbs_of_get? {name : String} {n : Int} (h : Table.get? keywords name = some n) :
    n.natAbs ≤ 2 ^ 53 :=
  hexact (name, n) (Table.mem_of_get? h)

omit hb in
theorem natAbs_part_le (name : String) : (Shift.part keywords name).natAbs ≤ 2 ^ 53 := by
  rw [Shift.part]
  cases hname : Table.get? keywords name with
  | none => decide
  | some n => exact natAbs_of_get? hexact hname

include hb

/-- A parameter without a number is read as what the keywords say. -/
theorem integer?_of_carried (i : Nat) (name : String)
    (hp : offsetSignature.params[i]? = some ⟨name, some .null⟩) :
    b.integer? name = .ok (Table.get? keywords name) := by
  rw [Bound.integer?, Bound.integer, get_of_carried hb hp]
  cases hname : Table.get? keywords name with
  | none => rfl
  | some n =>
    rw [Option.map_some, Option.getD_some, integer?_int (natAbs_of_get? hexact hname)]
    rfl

/-- A parameter that is zero by default is read as what the keywords say. -/
theorem integerOr_of_carried (i : Nat) (name : String)
    (hp : offsetSignature.params[i]? = some ⟨name, some (.int 0)⟩) :
    b.integerOr name 0 = .ok (Shift.part keywords name) := by
  have hget : b.get name = .int (Shift.part keywords name) := by
    rw [get_of_carried hb hp, Shift.part]
    cases Table.get? keywords name <;> rfl
  rw [Bound.integerOr, Bound.integer, hget, integer?_int (natAbs_part_le hexact name)]
  rfl

include hnames

/-- The arguments of a shift make an offset that makes the shift. -/
theorem offsetOf_makes :
    ∃ o, offsetOf b = .ok o ∧ o.Makes (.ofKeywords keywords) ∧ o.Within (2 ^ 57) := by
  have hmissing (name : String) (h : name ∉ Shift.names) : Table.get? keywords name = none :=
    Table.get?_eq_none fun k hk hname => h (hname ▸ hnames k hk)
  have habsolute (i : Nat) (name : String) (h : name ∉ Shift.names)
      (hp : offsetSignature.params[i]? = some ⟨name, some .null⟩) : b.integer? name = .ok none := by
    rw [integer?_of_carried hb hexact i name hp, hmissing name h]
  have hleapdays : Shift.part keywords "leapdays" = 0 := by
    rw [Shift.part, hmissing "leapdays" (by decide)]
    rfl
  have hyears := natAbs_part_le hexact "years"
  have hmonths := natAbs_part_le hexact "months"
  have hdays := natAbs_part_le hexact "days"
  have hweeks := natAbs_part_le hexact "weeks"
  have hsmall : (Shift.part keywords "days" + 7 * Shift.part keywords "weeks").natAbs ≤ 2 ^ 56 := by
    omega
  have hwhole : Outcome.ofCalendar (Offset.wholeDays (Shift.part keywords "days")
      (Shift.part keywords "weeks")) =
        .ok (Shift.part keywords "days" + 7 * Shift.part keywords "weeks") := by
    rw [Offset.wholeDays, mul_comm, Offset.fitted_eq_ok (by omega), ok_bind,
      Offset.fitted_eq_ok (by omega)]
    rfl
  obtain ⟨o, ho, hmakes⟩ := Offset.ofParts_makes hyears hmonths hsmall
    fun _ => natAbs_of_get? hexact
  refine ⟨o, ?_, hmakes⟩
  simp only [offsetOf, habsolute 0 "year" (by decide) rfl, habsolute 1 "month" (by decide) rfl,
    habsolute 2 "day" (by decide) rfl, integer?_of_carried hb hexact 3 "weekday" rfl,
    habsolute 4 "yearday" (by decide) rfl, habsolute 5 "nlyearday" (by decide) rfl,
    integerOr_of_carried hb hexact 6 "years" rfl, integerOr_of_carried hb hexact 7 "months" rfl,
    integerOr_of_carried hb hexact 8 "weeks" rfl, integerOr_of_carried hb hexact 9 "days" rfl,
    integerOr_of_carried hb hexact 10 "leapdays" rfl, hleapdays, hwhole, ok_bind]
  exact congrArg Outcome.ofCalendar ho

end Arguments

end Temporal

/-! ## Dates and offsets as operands -/

namespace Temporal

/-- A date with or without a time of day. -/
def dated (clock : Option Clock) (d : Date) : Temporal :=
  match clock with
  | none => .date d
  | some c => .datetime { date := d, clock := c }

end Temporal

namespace Value

section Operands

variable (host : Host) (site id id' : Identity) (clock : Option Clock) (d : Date) (o : Offset)

/-- The outcome of changing a date, the time of day being kept. -/
def changed : Outcome Value :=
  (Outcome.ofCalendar (o.apply d)).map fun e => .temporal site (.dated clock e)

theorem change_dated :
    OffsetMethod.change site (.ok o) (.temporal id (.dated clock d)) = changed site clock d o := by
  rw [changed]
  cases clock with
  | none =>
    rw [Temporal.dated, OffsetMethod.change, ok_bind]
    cases o.apply d <;> rfl
  | some c =>
    rw [Temporal.dated, OffsetMethod.change, ok_bind]
    cases o.apply d <;> rfl

/-- A changed date is an answer. -/
theorem answering_changed : Answering (changed site clock d o) :=
  answering_computed

/-- A date hands an offset that is added to it over to the offset. -/
theorem add_offset :
    binary host site .add (temporal id (.dated clock d)) (temporal id' (.offset o)) =
      changed site clock d o := by
  have hdate : askOperator host site (temporal id (.dated clock d)) BinaryOp.add.method
      (temporal id' (.offset o)) = .ok none := by
    cases clock <;> rfl
  exact binary_right (answering_changed site clock d o) rfl hdate rfl rfl
    (change_dated site id clock d o)

theorem offset_add :
    binary host site .add (temporal id' (.offset o)) (temporal id (.dated clock d)) =
      changed site clock d o :=
  binary_left (answering_changed site clock d o) rfl rfl (change_dated site id clock d o)

/-- A date hands an offset that is taken away from it over to the offset, which turns itself
around. -/
theorem sub_offset {o' : Offset} (ho : o.negate = .ok o') :
    binary host site .sub (temporal id (.dated clock d)) (temporal id' (.offset o)) =
      changed site clock d o' := by
  have hdate : askOperator host site (temporal id (.dated clock d)) BinaryOp.sub.method
      (temporal id' (.offset o)) = .ok none := by
    cases clock <;> rfl
  have hturned : (Outcome.ofCalendar o.negate >>= fun turned =>
      OffsetMethod.change site (.ok turned) (temporal id (.dated clock d))) =
        changed site clock d o' := by
    rw [ho]
    exact change_dated site id clock d o'
  exact binary_right (answering_changed site clock d o') rfl hdate rfl rfl hturned

end Operands

/-! ## The arithmetic of offsets -/

/-- A call makes the offset that its bound arguments ask for. -/
theorem callWith_offset (host : Host) (site : Identity)
    (runBody : Expr → Table Value → Outcome Value) {arguments : List (String × Value)} {b : Bound}
    {o : Offset}
    (hb : Temporal.offsetSignature.bind Class.relativedelta.name [] arguments = .ok b)
    (ho : Temporal.offsetOf b = .ok o) :
    callWith host site runBody (.cls .relativedelta) [] arguments =
      .ok (.temporal site (.offset o)) := by
  have hcreate : Temporal.create .relativedelta b = .ok (some (.offset o)) := by
    rw [Temporal.create, ho]
    rfl
  calc callWith host site runBody (.cls .relativedelta) [] arguments
    _ = Temporal.offsetSignature.bind Class.relativedelta.name [] arguments >>=
          Class.create host site .relativedelta .relativedelta := rfl
    _ = Class.create host site .relativedelta .relativedelta b := by rw [hb, ok_bind]
    _ = .ok (.temporal site (.offset o)) := by
      simp only [Class.create, hcreate, ok_bind, pure_eq]

/-- A call with the keywords of a shift makes an offset that makes the shift. -/
theorem callWith_relativedelta (host : Host) (site : Identity)
    (runBody : Expr → Table Value → Outcome Value) {keywords : List (String × Int)}
    (hnodup : (keywords.map (·.1)).Nodup) (hnames : ∀ k ∈ keywords, k.1 ∈ Shift.names)
    (hexact : ∀ k ∈ keywords, k.2.natAbs ≤ 2 ^ 53) :
    ∃ o : Offset, callWith host site runBody (.cls .relativedelta) []
        (Temporal.shiftArguments keywords) = .ok (.temporal site (.offset o)) ∧
      o.Makes (.ofKeywords keywords) ∧ o.Within (2 ^ 57) := by
  have hdeclared : ∀ n ∈ Shift.names, n ∈ Temporal.offsetSignature.params.map (·.name) := by decide
  obtain ⟨b, hb, hcarried⟩ :=
    Temporal.bind_offset hnodup fun k hk => hdeclared k.1 (hnames k hk)
  obtain ⟨o, ho, hmakes⟩ := Temporal.offsetOf_makes hnames hcarried hexact
  exact ⟨o, callWith_offset host site runBody hb ho, hmakes⟩

/-- Adding an offset to a date, from either side, moves the date by the shift that the keywords
of the offset say; taking it away moves the date by the shift the other way. A time of day is
kept. -/
theorem relativedelta_arithmetic (host : Host) (site : Identity)
    (runBody : Expr → Table Value → Outcome Value) (keywords : List (String × Int))
    (hnodup : (keywords.map (·.1)).Nodup) (hnames : ∀ k ∈ keywords, k.1 ∈ Shift.names)
    (hexact : ∀ k ∈ keywords, k.2.natAbs ≤ 2 ^ 53) :
    ∃ o : Offset, callWith host site runBody (.cls .relativedelta) []
        (Temporal.shiftArguments keywords) = .ok (.temporal site (.offset o)) ∧
      ∀ (place id : Identity) (clock : Option Clock) (d : Date),
        (Shift.ofKeywords keywords).Gives d (fun e => .temporal place (.dated clock e))
          (binary host place .add (.temporal id (.dated clock d)) (.temporal site (.offset o))) ∧
        binary host place .add (.temporal site (.offset o)) (.temporal id (.dated clock d)) =
          binary host place .add (.temporal id (.dated clock d)) (.temporal site (.offset o)) ∧
        (Shift.ofKeywords keywords).negate.Gives d (fun e => .temporal place (.dated clock e))
          (binary host place .sub (.temporal id (.dated clock d)) (.temporal site (.offset o))) := by
  obtain ⟨o, hcall, hmakes, hwithin⟩ :=
    callWith_relativedelta host site runBody hnodup hnames hexact
  obtain ⟨o', hnegate, hmakes', hwithin'⟩ := hmakes.negate (by decide) hwithin
  refine ⟨o, hcall, fun place id clock d => ?_⟩
  rw [add_offset, offset_add, sub_offset host place id site clock d o hnegate]
  exact ⟨(Offset.apply_answered hmakes (hwithin.mono (by decide)) d).gives, rfl,
    (Offset.apply_answered hmakes' (hwithin'.mono (by decide)) d).gives⟩

/-- The last day of a year that is not a leap year. -/
def yearEnd : Date := ⟨2023, 12, 31, by decide, by decide, by decide⟩

/-- The last day of a February that is not in a leap year. -/
def februaryEnd : Date := ⟨2025, 2, 28, by decide, by decide, by decide⟩

/-- Fourteen months after the last day of a year is the last day of a February; it is a Friday, so
that moving on to a Friday changes nothing. -/
theorem relativedelta_arithmetic_monthEnd :
    ∃ o : Offset, callWith .idle (.root 0) (fun _ _ => .ok .null) (.cls .relativedelta) []
        (Temporal.shiftArguments [("weekday", 4), ("months", 14)]) =
          .ok (.temporal (.root 0) (.offset o)) ∧
      binary .idle (.root 1) .add (.temporal (.root 2) (.date yearEnd))
          (.temporal (.root 0) (.offset o)) =
        .ok (.temporal (.root 1) (.date februaryEnd)) := by
  obtain ⟨o, hcall, hmoves⟩ := relativedelta_arithmetic .idle (.root 0) (fun _ _ => .ok .null)
    [("weekday", 4), ("months", 14)] (by decide) (by decide) (by decide)
  refine ⟨o, hcall, ?_⟩
  have hadd := (hmoves (.root 1) (.root 2) none yearEnd).1
  refine (hadd.leads _).mpr ⟨februaryEnd, ?_, rfl⟩
  refine ⟨by decide, februaryEnd, februaryEnd, ⟨by decide, by decide, by decide⟩, by decide, ?_⟩
  exact ⟨le_rfl, by decide, by decide, fun f hlater hearlier => absurd hearlier (not_lt.mpr hlater)⟩

end Value

end FilterLang
