import FilterLang.Proofs.Calendar.YearDays
import FilterLang.Proofs.Value.Shifting
import Mathlib
/-!
Offsets to a day of the year in the language.

A call that names nothing but a day of the year makes an offset that picks it
(`callWith_yearday`). Added to a date it leads to that day of the year of the date, and to the
365th in place of the 366th (`yearday_leads`).
-/

namespace FilterLang

open Fallible

namespace Temporal

def yearDayKeywords (n : Int) : List (String × Int) :=
  [("yearday", n)]

/-- Arguments that name only a day of the year make the offset of such parts. -/
theorem offsetOf_yearDay {n : Int} (hn : n.natAbs ≤ 2 ^ 53) {b : Bound}
    (hb : (Call.ofSignature offsetSignature [] (shiftArguments (yearDayKeywords n))).Carried b) :
    offsetOf b = .ofCalendar (Offset.ofParts (Offset.yearDayParts n)) := by
  have hexact : ∀ k ∈ yearDayKeywords n, k.2.natAbs ≤ 2 ^ 53 := by
    simpa [yearDayKeywords] using hn
  have habsolute (i : Nat) (name : String)
      (hp : offsetSignature.params[i]? = some ⟨name, some .null⟩) :
      b.integer? name = .ok (Table.get? (yearDayKeywords n) name) :=
    integer?_of_carried hb hexact i name hp
  have hrelative (i : Nat) (name : String)
      (hp : offsetSignature.params[i]? = some ⟨name, some (.int 0)⟩) :
      b.integerOr name 0 = .ok (Shift.part (yearDayKeywords n) name) :=
    integerOr_of_carried hb hexact i name hp
  have hwhole : Outcome.ofCalendar (Offset.wholeDays (Shift.part (yearDayKeywords n) "days")
      (Shift.part (yearDayKeywords n) "weeks")) = .ok 0 := by
    show Outcome.ofCalendar (Offset.wholeDays 0 0) = .ok 0
    rw [Offset.wholeDays, zero_mul, Offset.fitted_eq_ok (by decide), ok_bind, add_zero,
      Offset.fitted_eq_ok (by decide)]
    rfl
  simp only [offsetOf, habsolute 0 "year" rfl, habsolute 1 "month" rfl, habsolute 2 "day" rfl,
    habsolute 3 "weekday" rfl, habsolute 4 "yearday" rfl, habsolute 5 "nlyearday" rfl,
    hrelative 6 "years" rfl, hrelative 7 "months" rfl, hrelative 8 "weeks" rfl,
    hrelative 9 "days" rfl, hrelative 10 "leapdays" rfl, hwhole, ok_bind]
  rfl

end Temporal

namespace Value

/-- A call with a day of the year makes an offset that picks it. -/
theorem callWith_yearday (host : Host) (site : Identity)
    (runBody : Expr → Table Value → Outcome Value) {n : Int} (hn : 1 ≤ n ∧ n ≤ 366) :
    ∃ (o : Offset) (m : Nat), callWith host site runBody (.cls .relativedelta) []
        [("yearday", .int n)] = .ok (.temporal site (.offset o)) ∧ o.Picks n m := by
  obtain ⟨o, m, ho, hpicks⟩ := Offset.ofParts_picks hn
  have hdeclared : ∀ k ∈ Temporal.yearDayKeywords n,
      k.1 ∈ Temporal.offsetSignature.params.map (·.name) := by
    intro k hk
    rw [List.mem_singleton.mp hk]
    show "yearday" ∈ Temporal.offsetSignature.params.map (·.name)
    decide
  have hnodup : ((Temporal.yearDayKeywords n).map (·.1)).Nodup := List.nodup_singleton _
  obtain ⟨b, hb, hcarried⟩ := Temporal.bind_offset hnodup hdeclared
  refine ⟨o, m, callWith_offset host site runBody hb ?_, hpicks⟩
  rw [Temporal.offsetOf_yearDay (by omega) hcarried, ho]
  rfl

/-- Adding an offset to a day of the year, from 1 to 366, leads to that day of the year of the
date, except that the 366th day is taken for the 365th. A time of day is kept. -/
theorem yearday_leads (host : Host) (site : Identity)
    (runBody : Expr → Table Value → Outcome Value) (n : Int) (hn : 1 ≤ n ∧ n ≤ 366) :
    ∃ o : Offset, callWith host site runBody (.cls .relativedelta) [] [("yearday", .int n)] =
        .ok (.temporal site (.offset o)) ∧
      ∀ (place id : Identity) (clock : Option Clock) (d : Date), ∃ e : Date,
        binary host place .add (.temporal id (.dated clock d)) (.temporal site (.offset o)) =
          .ok (.temporal place (.dated clock e)) ∧
        e.year = d.year ∧ (e.dayOfYear : Int) = min n 365 := by
  obtain ⟨o, m, hcall, hpicks⟩ := callWith_yearday host site runBody hn
  refine ⟨o, hcall, fun place id clock d => ?_⟩
  obtain ⟨e, he, hyear, hday⟩ := Offset.apply_picks hpicks d
  refine ⟨e, ?_, hyear, hday⟩
  rw [add_offset, changed, he]
  rfl

/-- The 60th day of a leap year is its leap day. -/
theorem yearday_leads_leapDay :
    ∃ (o : Offset) (e : Date),
      callWith .idle (.root 0) (fun _ _ => .ok .null) (.cls .relativedelta) []
        [("yearday", .int 60)] = .ok (.temporal (.root 0) (.offset o)) ∧
      binary .idle (.root 1) .add
          (.temporal (.root 2) (.date ⟨2024, 1, 1, by decide, by decide, by decide⟩))
          (.temporal (.root 0) (.offset o)) = .ok (.temporal (.root 1) (.date e)) ∧
      e.year = 2024 ∧ e.dayOfYear = 60 := by
  obtain ⟨o, hcall, hleads⟩ := yearday_leads .idle (.root 0) (fun _ _ => .ok .null) 60 (by decide)
  obtain ⟨e, hadd, hyear, hday⟩ :=
    hleads (.root 1) (.root 2) none ⟨2024, 1, 1, by decide, by decide, by decide⟩
  exact ⟨o, e, hcall, hadd, hyear, by exact_mod_cast hday⟩

/-- The 366th day of a leap year is not found: the day before it is. -/
theorem yearday_leads_notLast :
    isLeap 2024 = true ∧
    ∃ (o : Offset) (e : Date),
      callWith .idle (.root 0) (fun _ _ => .ok .null) (.cls .relativedelta) []
        [("yearday", .int 366)] = .ok (.temporal (.root 0) (.offset o)) ∧
      binary .idle (.root 1) .add
          (.temporal (.root 2) (.date ⟨2024, 1, 1, by decide, by decide, by decide⟩))
          (.temporal (.root 0) (.offset o)) = .ok (.temporal (.root 1) (.date e)) ∧
      e.year = 2024 ∧ e.dayOfYear = 365 := by
  obtain ⟨o, m, hcall, hpicks⟩ :=
    callWith_yearday .idle (.root 0) (fun _ _ => .ok .null) (n := 366) (by decide)
  obtain ⟨e, he, hyear, hday⟩ :=
    Offset.apply_picks hpicks ⟨2024, 1, 1, by decide, by decide, by decide⟩
  refine ⟨by decide, o, e, hcall, ?_, hyear, by exact_mod_cast hday⟩
  have hadd := add_offset .idle (.root 1) (.root 2) (.root 0) none
    ⟨2024, 1, 1, by decide, by decide, by decide⟩ o
  rw [changed, he] at hadd
  exact hadd

end Value

end FilterLang
