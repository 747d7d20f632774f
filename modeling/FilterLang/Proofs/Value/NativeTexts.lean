import FilterLang.Proofs.Calendar.Texts
import FilterLang.Proofs.Value.Methods
import FilterLang.Proofs.Value.Ordering
import FilterLang.Source
/-!
The texts that the embedding program gets for dates, times and moments.

The embedding program compares these texts, not the values that they come from. Two dates are in
the order of their texts. The texts of times and moments leave the microseconds out, so a text is
never greater when the time is not later, and it is the same for all times in one second. The
method `strftime` gives the native text too, for the format of the class, and of a date it is also
the text that `str` and `isoformat` give (`native_texts_chronological`).
-/

namespace FilterLang

/-- Two times of day agree up to their microseconds. -/
structure Clock.SameSecond (a b : Clock) : Prop where
  hour : a.hour = b.hour
  minute : a.minute = b.minute
  second : a.second = b.second

theorem Clock.hms_eq_iff {a b : Clock} : a.hms = b.hms ↔ a.SameSecond b := by
  constructor
  · intro h
    have hlist : a.hms.toList ++ [] = b.hms.toList ++ [] := by rw [h]
    obtain ⟨hh, hm, hs, -⟩ := Clock.append_hms_injective hlist
    exact ⟨hh, hm, hs⟩
  · rintro ⟨hh, hm, hs⟩
    rw [Clock.hms, Clock.hms, hh, hm, hs]

theorem DateTime.text_eq_iff {a b : DateTime} :
    a.text = b.text ↔ a.date = b.date ∧ a.clock.SameSecond b.clock := by
  constructor
  · intro h
    have hlist := congrArg String.toList h
    rw [DateTime.toList_text, DateTime.toList_text] at hlist
    obtain ⟨hdate, hrest⟩ := Date.append_iso_injective hlist
    exact ⟨hdate, Clock.hms_eq_iff.mp (String.toList_injective (List.cons.inj hrest).2)⟩
  · rintro ⟨hdate, hclock⟩
    rw [DateTime.text, DateTime.text, hdate, Clock.hms_eq_iff.mpr hclock]

namespace Value

variable {host : Host} {site i j : Identity}

/-! ## Comparisons of calendar values and of texts -/

theorem ranked_calendar {t : Temporal} (ht : t.cls ≠ .relativedelta) (id : Identity) :
    (temporal id t).RankedThroughout fun _ => t.cls :=
  .intro ⟨rfl, ht⟩ fun _ hw => nomatch hw

theorem ranked_str (s : String) : (str s).RankedThroughout fun _ => .str :=
  .intro trivial fun _ hw => nomatch hw

/-- Calendar values of one class compare by their measures. -/
theorem satisfies_calendar {t u : Temporal} (hcls : u.cls = t.cls) (ht : t.cls ≠ .relativedelta)
    (r : Relation) :
    Satisfies host site r (temporal i t) (temporal j u) ↔
      r.accepts (compare t.measure u.measure) = true := by
  have hu := ranked_calendar (hcls ▸ ht) j
  rw [hcls] at hu
  rw [satisfies_iff (ranked_calendar ht i) hu]
  show r.accepts ((Rank.node t.cls.name t.measure "" []).order (.node u.cls.name _ "" [])) = _ ↔ _
  rw [hcls, order_number]

theorem satisfies_str (s t : String) (r : Relation) :
    Satisfies host site r (str s) (str t) ↔ r.accepts (compare s t) = true := by
  rw [satisfies_iff (ranked_str s) (ranked_str t)]
  show r.accepts ((Rank.node "str" 0 s []).order (.node "str" 0 t [])) = _ ↔ _
  rw [order_text]

variable (r : Relation)

theorem satisfies_dates (d e : Date) :
    Satisfies host site r (temporal i (.date d)) (temporal j (.date e)) ↔
      r.accepts (compare d.iso e.iso) = true := by
  rw [← d.compare_ordinal e]
  exact satisfies_calendar (t := .date d) (u := .date e) rfl nofun r

theorem satisfies_datetimes (x y : DateTime) :
    Satisfies host site r (temporal i (.datetime x)) (temporal j (.datetime y)) ↔
      r.accepts ((compare x.text y.text).then (compare x.clock.micro y.clock.micro)) = true := by
  rw [← x.compare_micros y]
  exact satisfies_calendar (t := .datetime x) (u := .datetime y) rfl nofun r

theorem satisfies_times (b c : Clock) :
    Satisfies host site r (temporal i (.time b)) (temporal j (.time c)) ↔
      r.accepts ((compare b.hms c.hms).then (compare b.micro c.micro)) = true := by
  rw [← b.compare_micros c, compare_cast]
  exact satisfies_calendar (t := .time b) (u := .time c) rfl nofun r

/-! ## Native texts -/

/-- The embedding program gets a text for a value, and the method `strftime` gives the same text for
a format. -/
structure NativeText (host : Host) (site : Identity)
    (runBody : Expr → Table Value → Outcome Value) (layout : String) (v : Value) (s : String) :
    Prop where
  native : toNative host site v = .ok (.str s)
  strftime : v.send host site runBody "strftime" [.str layout] = .ok (.str s)

/-- The text of a date: its native text is also what `str` and `isoformat` give. -/
structure DateText (host : Host) (site : Identity)
    (runBody : Expr → Table Value → Outcome Value) (v : Value) (s : String) : Prop extends
    NativeText host site runBody "%Y-%m-%d" v s where
  str : (cls .str).callWith host site runBody [v] [] = .ok (.str s)
  isoformat : v.send host site runBody "isoformat" [] = .ok (.str s)

variable {runBody : Expr → Table Value → Outcome Value}

theorem dateText (d : Date) : DateText host site runBody (temporal i (.date d)) d.iso where
  native := rfl
  strftime := by
    show (Outcome.ofCalendar (d.format "%Y-%m-%d") >>= fun s => pure (Value.str s)) = _
    rw [d.format_iso]
    rfl
  str := rfl
  isoformat := rfl

theorem nativeText_datetime (t : DateTime) :
    NativeText host site runBody "%Y-%m-%d %H:%M:%S" (temporal i (.datetime t)) t.text where
  native := rfl
  strftime := by
    show (Outcome.ofCalendar (t.format "%Y-%m-%d %H:%M:%S") >>= fun s => pure (Value.str s)) = _
    rw [t.format_text]
    rfl

theorem nativeText_time (c : Clock) :
    NativeText host site runBody "%H:%M:%S" (temporal i (.time c)) c.hms where
  native := rfl
  strftime := by
    show (Outcome.ofCalendar (c.format "%H:%M:%S") >>= fun s => pure (Value.str s)) = _
    rw [c.format_hms]
    rfl

/-- What is in the order of a text, and then of something else, is not later than what has a
greater text. -/
theorem accepts_le_of_then {o o' : Ordering} (h : Relation.le.accepts (o.then o') = true) :
    Relation.le.accepts o = true := by
  cases o <;> first | rfl | cases h

/-- Native texts of dates sort as the dates do, and they are what `str`, `isoformat` and `strftime`
give. Native texts of moments and of times do not sort against them, are equal exactly when only the
microseconds differ, and are what `strftime` gives. -/
theorem native_texts_chronological (host : Host) (site i j : Identity)
    (runBody : Expr → Table Value → Outcome Value) :
    (∀ d e : Date, ∃ s t,
      DateText host site runBody (temporal i (.date d)) s ∧
      DateText host site runBody (temporal j (.date e)) t ∧
      (Satisfies host site .lt (temporal i (.date d)) (temporal j (.date e)) ↔
        Satisfies host site .lt (.str s) (.str t)) ∧
      (Satisfies host site .eq (temporal i (.date d)) (temporal j (.date e)) ↔ s = t)) ∧
    (∀ x y : DateTime, ∃ s t,
      NativeText host site runBody "%Y-%m-%d %H:%M:%S" (temporal i (.datetime x)) s ∧
      NativeText host site runBody "%Y-%m-%d %H:%M:%S" (temporal j (.datetime y)) t ∧
      (Satisfies host site .le (temporal i (.datetime x)) (temporal j (.datetime y)) →
        Satisfies host site .le (.str s) (.str t)) ∧
      (s = t ↔ x.date = y.date ∧ x.clock.SameSecond y.clock)) ∧
    ∀ b c : Clock, ∃ s t,
      NativeText host site runBody "%H:%M:%S" (temporal i (.time b)) s ∧
      NativeText host site runBody "%H:%M:%S" (temporal j (.time c)) t ∧
      (Satisfies host site .le (temporal i (.time b)) (temporal j (.time c)) →
        Satisfies host site .le (.str s) (.str t)) ∧
      (s = t ↔ b.SameSecond c) := by
  refine ⟨fun d e => ⟨d.iso, e.iso, dateText d, dateText e, ?_, ?_⟩,
    fun x y => ⟨x.text, y.text, nativeText_datetime x, nativeText_datetime y, ?_,
      DateTime.text_eq_iff⟩,
    fun b c => ⟨b.hms, c.hms, nativeText_time b, nativeText_time c, ?_, Clock.hms_eq_iff⟩⟩
  · rw [satisfies_dates, satisfies_str]
  · rw [satisfies_dates, Relation.accepts, beq_iff_eq, compare_eq_iff_eq]
  · rw [satisfies_datetimes, satisfies_str]
    exact accepts_le_of_then
  · rw [satisfies_times, satisfies_str]
    exact accepts_le_of_then

end Value

end FilterLang
