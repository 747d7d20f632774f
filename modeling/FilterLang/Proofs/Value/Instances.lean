import FilterLang.Proofs.Value.Soundness
/-!
Calendar values keep to the calendar.

Two faults would tell of a broken calendar value: an offset of more months than a year has, and
a method that takes an instance of its own class for none, having failed to read a field. The
other faults are *ordinary*. No computation of the calendar comes upon the first, as an offset
carries the bound on its months; no method run on a proper value comes upon the second, as
nothing but calendar values passes for one. What the methods give back is a calendar value, a
number, a text or a truth value, and so it is sound whatever the arguments were.
-/

namespace FilterLang

open Fallible

/-! ## Ordinary faults -/

/-- The fault of a method of one of a calendar value's own classes that takes the value for no
instance of that class: one of its fields could not be read. -/
def EvalError.FailedRead (host : Host) (e : EvalError) : Prop :=
  ∃ t : Temporal, ∃ c ∈ t.cls.lineage host, e = .type (.receiver c.name t.cls.name)

/-- A fault that a broken calendar value is not needed for. -/
def EvalError.Ordinary (host : Host) : EvalError → Prop
  | .value (.calendar e) => e ≠ .relativeMonths
  | .type (.receiver wanted found) =>
    ∀ t : Temporal, ∀ c ∈ t.cls.lineage host, ¬ (wanted = c.name ∧ found = t.cls.name)
  | _ => True

theorem EvalError.Ordinary.unbroken {host : Host} {e : EvalError} (h : e.Ordinary host) :
    e ≠ .ofCalendar .relativeMonths ∧ ¬ e.FailedRead host := by
  constructor
  · rintro rfl
    exact h rfl
  · rintro ⟨t, c, hc, rfl⟩
    exact h t c hc ⟨rfl, rfl⟩

/-- An outcome with a result that has a property, or with an ordinary fault. -/
abbrev Safe {α : Type} (host : Host) (P : α → Prop) (x : Outcome α) : Prop :=
  Lands P (EvalError.Ordinary host) x

/-- An outcome that is not a fault of a broken calendar value. -/
abbrev Calm {α : Type} (host : Host) (x : Outcome α) : Prop :=
  Safe host (fun _ => True) x

/-! ## The calendar -/

/-- A computation of the calendar that does not stumble over the months of an offset. -/
abbrev Usual {α : Type} (x : Except CalendarError α) : Prop :=
  Lands (fun _ => True) (· ≠ CalendarError.relativeMonths) x

theorem Usual.calm {α : Type} {host : Host} {x : Except CalendarError α} (h : Usual x) :
    Calm host (Outcome.ofCalendar x) := by
  cases x with
  | error e =>
    cases e with
    | overflow => trivial
    | _ => exact h
  | ok a => trivial

theorem Date.usual_ofCalendar (year month day : Int) : Usual (ofCalendar year month day) := by
  unfold ofCalendar
  split_ifs <;> simp [Lands]

theorem Date.usual_addDays (d : Date) (days : Int) : Usual (d.addDays days) := by
  unfold addDays
  split <;> simp [Lands]

theorem Clock.usual_ofFields (hour minute second micro : Int) :
    Usual (ofFields hour minute second micro) := by
  unfold ofFields
  split_ifs <;> simp [Lands]

theorem DateTime.usual_addMicros (t : DateTime) (micros : Int) : Usual (t.addMicros micros) := by
  unfold addMicros
  split <;> simp [Lands]

theorem DateTime.usual_fill (t : DateTime) (layout : List Char) : Usual (t.fill layout) := by
  fun_induction DateTime.fill t layout with
  | case1 rest ih => exact ih.bind fun _ _ => trivial
  | case2 code rest _ _ field _ ih => exact ih.bind fun _ _ => trivial
  | case3 code rest _ _ _ => simp [Lands]
  | case4 code rest _ _ ih => exact ih.bind fun _ _ => trivial
  | case5 c rest _ _ ih => exact ih.bind fun _ _ => trivial
  | case6 => trivial

theorem DateTime.usual_format (t : DateTime) (layout : String) : Usual (t.format layout) :=
  (t.usual_fill layout.toList).bind fun _ _ => trivial

namespace Duration

theorem usual_ofMicros (micros : Int) : Usual (ofMicros micros) := by
  unfold ofMicros
  split <;> simp [Lands]

theorem usual_ofFloat (total : Float) : Usual (ofFloat total) := by
  unfold ofFloat
  split
  · exact usual_ofMicros _
  · simp [Lands]

end Duration

namespace Offset

theorem usual_fitted (n : Int) : Usual (fitted n) := by
  unfold fitted
  split <;> simp [Lands]

theorem usual_wholeDays (days weeks : Int) : Usual (wholeDays days weeks) :=
  (usual_fitted _).bind fun _ _ => usual_fitted _

theorem usual_monthAndDay (p : Parts) : Usual p.monthAndDay := by
  unfold Parts.monthAndDay
  split
  · trivial
  · split
    · trivial
    · split
      · trivial
      · simp [Lands]

theorem usual_ofParts (p : Parts) : Usual (ofParts p) :=
  (usual_monthAndDay p).bind fun _ _ => (usual_fitted _).bind fun _ _ =>
    (usual_fitted _).bind fun _ _ => trivial

theorem usual_negate (o : Offset) : Usual o.negate :=
  (usual_fitted _).bind fun _ _ => (usual_fitted _).bind fun _ _ => trivial

theorem usual_moveMonths (year month months : Int) : Usual (moveMonths year month months) := by
  unfold moveMonths
  refine Lands.ite (fun _ => trivial) fun _ => (usual_fitted _).bind fun moved _ => ?_
  refine Lands.ite (fun _ => (usual_fitted _).bind fun _ _ => trivial) fun _ => ?_
  exact Lands.ite (fun _ => (usual_fitted _).bind fun _ _ => trivial) fun _ => trivial

/-- An offset moves by at most eleven months, so that its own check always passes. -/
theorem usual_apply (o : Offset) (d : Date) : Usual (o.apply d) := by
  have hmonths : ¬ (o.months ≠ 0 ∧ ¬ (1 ≤ o.months.natAbs ∧ o.months.natAbs ≤ 12)) := by
    have := o.months_range
    omega
  unfold apply
  refine (usual_fitted _).bind fun year _ => ?_
  rw [if_neg hmonths]
  refine (usual_moveMonths _ _ _).bind fun moved _ => ?_
  dsimp only
  refine Lands.ite (fun _ => ?_) fun _ => Lands.ite (fun _ => ?_) fun _ => ?_
  · simp [Lands, throw, throwThe, MonadExceptOf.throw]
  · simp [Lands, throw, throwThe, MonadExceptOf.throw]
  · -- the leap days change how many days are added, and nothing after it
    refine Lands.ite (fun _ => (usual_fitted _).bind fun days _ => ?_) fun _ => ?_
    all_goals
      refine (Date.usual_ofCalendar _ _ _).bind fun replaced _ => ?_
      refine (Duration.usual_ofMicros _).bind fun shift _ => ?_
      refine (replaced.usual_addDays shift.days).bind fun moved _ => ?_
      cases o.weekday with
      | none => trivial
      | some w => exact (usual_fitted _).bind fun _ _ => moved.usual_addDays _

end Offset

/-! ## Receivers -/

/-- A class of the language that has the name of a calendar class is that class. -/
theorem Class.eq_cls_of_name_eq {c : Class} (hc : ∀ name, c ≠ .host name) {t : Temporal}
    (h : c.name = t.cls.name) : c = t.cls := by
  cases c with
  | host name => exact absurd rfl (hc name)
  | _ => cases t <;> simp [name, Temporal.cls] at h <;> rfl

namespace Value

variable {host : Host} {site : Identity} {this : Value} {args : Bound}

theorem Proper.classOf_ne_host {v : Value} (h : v.Proper) (name : String) :
    v.classOf ≠ .host name := by
  cases v with
  | object id c fields => exact c.ne_host_of_isPlain h name
  | temporal id t => exact t.cls_ne_host name
  | _ => simp [classOf]

/-- Only calendar values are instances of calendar classes. -/
theorem Proper.eq_temporal {v : Value} (h : v.Proper) {t : Temporal} (hc : v.classOf = t.cls) :
    ∃ id u, v = temporal id u ∧ u.cls = t.cls := by
  cases v with
  | temporal id u => exact ⟨id, u, rfl, hc⟩
  | object id c fields =>
    have hplain : c.isPlain = true := h
    rw [show c = t.cls from hc] at hplain
    cases t <;> cases hplain
  | _ => cases t <;> cases hc

/-- A method that finds what it needs in every instance of its class refuses a proper value
only when it is none. -/
theorem calm_receiver {α : Type} (h : this.Proper) (t : Temporal) {view : Value → Option α}
    (hview : ∀ id u, t.cls ∈ u.cls.lineage host → (view (temporal id u)).isSome = true) :
    Calm host (this.receiver t.cls.name view) := by
  unfold receiver
  cases hthis : view this with
  | some a => trivial
  | none =>
    rintro u c hc ⟨hwanted, hfound⟩
    have hclass : c = t.cls :=
      Class.eq_cls_of_name_eq (Class.lineage_ne_host u.cls_ne_host c hc) hwanted.symm
    obtain ⟨id, u', rfl, hu'⟩ := h.eq_temporal (Class.eq_cls_of_name_eq h.classOf_ne_host hfound)
    have hsome := hview id u' (by rw [hu', ← hclass]; exact hc)
    rw [hthis] at hsome
    cases hsome

theorem calm_date (h : this.Proper) : Calm host (this.receiver "date" date?) := by
  refine calm_receiver h (.date Clock.placeholderDate) fun id u hu => ?_
  cases u with
  | date | datetime => rfl
  | _ => simp [Temporal.cls, Class.lineage, Class.ancestors] at hu

theorem calm_datetime (h : this.Proper) : Calm host (this.receiver "datetime" datetime?) := by
  refine calm_receiver h (.datetime ⟨Clock.placeholderDate, Clock.midnight⟩) fun id u hu => ?_
  cases u with
  | datetime => rfl
  | _ => simp [Temporal.cls, Class.lineage, Class.ancestors] at hu

theorem calm_clock (h : this.Proper) : Calm host (this.receiver "time" clock?) := by
  refine calm_receiver h (.time Clock.midnight) fun id u hu => ?_
  cases u with
  | time => rfl
  | _ => simp [Temporal.cls, Class.lineage, Class.ancestors] at hu

theorem calm_duration (h : this.Proper) : Calm host (this.receiver "timedelta" duration?) := by
  refine calm_receiver h (.duration ⟨0, by decide⟩) fun id u hu => ?_
  cases u with
  | duration => rfl
  | _ => simp [Temporal.cls, Class.lineage, Class.ancestors] at hu

theorem calm_offset (this : Value) : Calm host this.offsetReceiver := by
  unfold offsetReceiver
  split <;> trivial

end Value

/-! ## Arguments -/

namespace Bound

variable {host : Host} (b : Bound) (name : String)

theorem calm_integer : Calm host (b.integer name) := by
  unfold integer
  split <;> trivial

theorem calm_integerOr (default : Int) : Calm host (b.integerOr name default) :=
  Lands.ite (fun _ => trivial) fun _ => b.calm_integer name

theorem calm_integer? : Calm host (b.integer? name) :=
  Lands.ite (fun _ => trivial) fun _ => (b.calm_integer name).map fun _ _ => trivial

theorem calm_durationPart : Calm host (b.durationPart name) := by
  unfold durationPart
  split <;> trivial

theorem calm_layout : Calm host b.layout := by
  unfold layout
  split <;> trivial

end Bound

/-! ## Methods -/

section Methods

variable {host : Host} {site : Identity} {this : Value} {args : Bound}

open Value

theorem sound_compareBy {α : Type} (key : Value → Option α) (order : α → α → Ordering)
    (r : Relation) (a b : Value) : (compareBy key order r a b).Sound := by
  unfold compareBy
  split <;> simp

/-- What is read off the receiver of a method is always sound. -/
theorem safe_read {α : Type} {x : Outcome α} (h : Calm host x) {f : α → Value}
    (hf : ∀ a, (f a).Sound) : Safe host Sound (x >>= fun a => .ok (f a)) :=
  h.bind fun a _ => hf a

namespace DateMethod

theorem safe_shift (h : this.Proper) (other : Value) (sign : Int) :
    Safe host Sound (shift site this other sign) := by
  unfold shift
  split
  · exact sound_notImplemented
  · refine (calm_date h).bind fun d _ => ?_
    exact safe_read (Date.usual_addDays d _).calm fun _ => sound_temporal _ _

theorem calm_replaced (d : Date) : Calm host (replaced d args) := by
  refine (args.calm_integer? "year").bind fun year _ => ?_
  refine (args.calm_integer? "month").bind fun month _ => ?_
  refine (args.calm_integer? "day").bind fun day _ => ?_
  exact (Date.usual_ofCalendar _ _ _).calm

theorem safe_run (m : DateMethod) (h : this.Proper) :
    Safe host Sound (m.run host site this args) := by
  cases m with
  | today => exact sound_temporal _ _
  | strftime =>
    refine (calm_date h).bind fun d _ => args.calm_layout.bind fun layout _ => ?_
    exact safe_read (DateTime.usual_format _ layout).calm fun _ => sound_str _
  | isoformat | str | repr => exact safe_read (calm_date h) fun _ => sound_str _
  | replace =>
    exact (calm_date h).bind fun d _ => safe_read (calm_replaced d) fun _ => sound_temporal _ _
  | toordinal | hash | weekday | isoweekday =>
    exact safe_read (calm_date h) fun _ => sound_int _
  | add | radd => exact safe_shift h _ _
  | sub =>
    refine (calm_date h).bind fun d _ => ?_
    split
    · exact safe_read (Duration.usual_ofMicros _).calm fun _ => sound_temporal _ _
    · exact safe_shift h _ _
  | compare r => exact sound_compareBy _ _ _ _ _

end DateMethod

namespace DatetimeMethod

theorem safe_shift (h : this.Proper) (other : Value) (sign : Int) :
    Safe host Sound (shift site this other sign) := by
  unfold shift
  split
  · exact sound_notImplemented
  · refine (calm_datetime h).bind fun t _ => ?_
    exact safe_read (t.usual_addMicros _).calm fun _ => sound_temporal _ _

theorem safe_run (m : DatetimeMethod) (h : this.Proper) :
    Safe host Sound (m.run host site this args) := by
  cases m with
  | now | today | utcnow => exact sound_temporal _ _
  | combine =>
    unfold run
    dsimp only
    split
    · trivial
    · split
      · trivial
      · exact sound_temporal _ _
  | strftime =>
    refine (calm_datetime h).bind fun t _ => args.calm_layout.bind fun layout _ => ?_
    exact safe_read (t.usual_format layout).calm fun _ => sound_str _
  | isoformat | str | repr | hash => exact safe_read (calm_datetime h) fun _ => sound_str _
  | replace =>
    refine (calm_datetime h).bind fun t _ => ?_
    refine (DateMethod.calm_replaced t.date).bind fun d _ => ?_
    refine (args.calm_integerOr "hour" _).bind fun hour _ => ?_
    refine (args.calm_integerOr "minute" _).bind fun minute _ => ?_
    refine (args.calm_integerOr "second" _).bind fun second _ => ?_
    refine (args.calm_integerOr "microsecond" _).bind fun micro _ => ?_
    exact safe_read (Clock.usual_ofFields _ _ _ _).calm fun _ => sound_temporal _ _
  | date | time => exact safe_read (calm_datetime h) fun _ => sound_temporal _ _
  | add | radd => exact safe_shift h _ _
  | sub =>
    refine (calm_datetime h).bind fun t _ => ?_
    split
    · exact safe_read (Duration.usual_ofMicros _).calm fun _ => sound_temporal _ _
    · exact safe_shift h _ _
  | compare r => exact sound_compareBy _ _ _ _ _

end DatetimeMethod

theorem TimeMethod.safe_run (m : TimeMethod) (h : this.Proper) :
    Safe host Sound (m.run this args) := by
  cases m with
  | strftime =>
    refine (calm_clock h).bind fun c _ => args.calm_layout.bind fun layout _ => ?_
    exact safe_read (DateTime.usual_format _ layout).calm fun _ => sound_str _
  | isoformat | str | hash => exact safe_read (calm_clock h) fun _ => sound_str _
  | compare r => exact sound_compareBy _ _ _ _ _

namespace DurationMethod

theorem safe_combine (h : this.Proper) (op : Int → Int → Int) (other : Value) :
    Safe host Sound (combine site op this other) := by
  unfold combine
  split
  · exact sound_notImplemented
  · refine (calm_duration h).bind fun a _ => ?_
    exact safe_read (Duration.usual_ofMicros _).calm fun _ => sound_temporal _ _

theorem safe_change (h : this.Proper) (op : Int → Int) :
    Safe host Sound (change site op this) :=
  (calm_duration h).bind fun _ _ =>
    safe_read (Duration.usual_ofMicros _).calm fun _ => sound_temporal _ _

theorem safe_scale (h : this.Proper) (other : Value) :
    Safe host Sound (scale site this other) := by
  unfold scale
  split
  · exact sound_notImplemented
  · refine (calm_duration h).bind fun a _ => ?_
    exact safe_read (Duration.usual_ofFloat _).calm fun _ => sound_temporal _ _

theorem safe_divide (h : this.Proper) (floor : Bool) (other : Value) :
    Safe host Sound (divide site floor this other) := by
  refine (calm_duration h).bind fun a _ => ?_
  dsimp only
  split
  · refine Lands.ite (fun _ => trivial) fun _ => ?_
    cases floor with
    | true => exact sound_int _
    | false => exact sound_number _
  · split
    · exact sound_notImplemented
    · refine Lands.ite (fun _ => trivial) fun _ => ?_
      exact safe_read (Duration.usual_ofMicros _).calm fun _ => sound_temporal _ _

theorem safe_run (m : DurationMethod) (h : this.Proper) :
    Safe host Sound (m.run site this args) := by
  cases m with
  | add | radd | sub | rsub =>
    rw [run]
    exact safe_combine h _ _
  | neg | pos | abs =>
    rw [run]
    exact safe_change h _
  | mul | rmul => exact safe_scale h _
  | div | floordiv => exact safe_divide h _ _
  | totalSeconds => exact safe_read (calm_duration h) fun _ => sound_number _
  | nonzero => exact safe_read (calm_duration h) fun _ => sound_bool _
  | hash | str | repr => exact safe_read (calm_duration h) fun _ => sound_str _
  | compare r => exact sound_compareBy _ _ _ _ _

end DurationMethod

namespace OffsetMethod

theorem safe_change {o : Outcome Offset} (ho : Calm host o) (other : Value) :
    Safe host Sound (change site o other) := by
  unfold change
  split
  · refine ho.bind fun o _ => ?_
    exact safe_read (o.usual_apply _).calm fun _ => sound_temporal _ _
  · refine ho.bind fun o _ => ?_
    exact safe_read (o.usual_apply _).calm fun _ => sound_temporal _ _
  · exact sound_notImplemented

theorem safe_run (m : OffsetMethod) : Safe host Sound (m.run site this args) := by
  cases m with
  | add | radd => exact safe_change (calm_offset this) _
  | rsub =>
    refine (calm_offset this).bind fun o _ => o.usual_negate.calm.bind fun turned _ => ?_
    have hturned : Calm host (.ok turned) := trivial
    exact safe_change hturned _
  | neg =>
    refine (calm_offset this).bind fun o _ => ?_
    exact safe_read o.usual_negate.calm fun _ => sound_temporal _ _
  | repr => exact safe_read (calm_offset this) fun _ => sound_str _

end OffsetMethod

/-- A calendar method gives a sound value or an ordinary fault, whatever its arguments are. -/
theorem TemporalMethod.safe_run (m : TemporalMethod) (h : this.Proper) :
    Safe host Sound (m.run host site this args) := by
  cases m with
  | date m => exact m.safe_run h
  | datetime m => exact m.safe_run h
  | time m => exact m.safe_run h
  | duration m => exact m.safe_run h
  | offset m => exact m.safe_run

end Methods

/-! ## The making of calendar values -/

namespace Temporal

variable {host : Host} (args : Bound)

theorem calm_dateOf : Calm host (dateOf args) := by
  refine (args.calm_integer "year").bind fun year _ => ?_
  refine (args.calm_integer "month").bind fun month _ => ?_
  refine (args.calm_integer "day").bind fun day _ => ?_
  exact (Date.usual_ofCalendar _ _ _).calm

theorem calm_clockOf : Calm host (clockOf args) := by
  refine (args.calm_integer "hour").bind fun hour _ => ?_
  refine (args.calm_integer "minute").bind fun minute _ => ?_
  refine (args.calm_integer "second").bind fun second _ => ?_
  refine (args.calm_integer "microsecond").bind fun micro _ => ?_
  exact (Clock.usual_ofFields _ _ _ _).calm

theorem calm_durationOf : Calm host (durationOf args) := by
  refine (args.calm_durationPart "weeks").bind fun weeks _ => ?_
  refine (args.calm_durationPart "days").bind fun days _ => ?_
  refine (args.calm_durationPart "hours").bind fun hours _ => ?_
  refine (args.calm_durationPart "minutes").bind fun minutes _ => ?_
  refine (args.calm_durationPart "seconds").bind fun seconds _ => ?_
  refine (args.calm_durationPart "milliseconds").bind fun milliseconds _ => ?_
  refine (args.calm_durationPart "microseconds").bind fun microseconds _ => ?_
  exact (Duration.usual_ofFloat _).calm

theorem calm_offsetOf : Calm host (offsetOf args) := by
  refine (args.calm_integer? "year").bind fun year _ => ?_
  refine (args.calm_integer? "month").bind fun month _ => ?_
  refine (args.calm_integer? "day").bind fun day _ => ?_
  refine (args.calm_integer? "weekday").bind fun weekday _ => ?_
  refine (args.calm_integerOr "years" 0).bind fun years _ => ?_
  refine (args.calm_integerOr "months" 0).bind fun months _ => ?_
  refine (args.calm_integerOr "days" 0).bind fun days _ => ?_
  refine (args.calm_integerOr "weeks" 0).bind fun weeks _ => ?_
  refine (Offset.usual_wholeDays days weeks).calm.bind fun whole _ => ?_
  refine (args.calm_integerOr "leapdays" 0).bind fun leapdays _ => ?_
  refine (args.calm_integer? "nlyearday").bind fun nlyearday _ => ?_
  refine Lands.ite (fun _ => (Offset.usual_ofParts _).calm) fun _ => ?_
  exact (args.calm_integer? "yearday").bind fun yearday _ => (Offset.usual_ofParts _).calm

/-- Every class of the calendar makes calendar values. -/
theorem safe_create (c : Class) :
    Safe host (fun made => made = none → ∀ t : Temporal, c ≠ t.cls) (create c args) := by
  unfold create
  split
  · exact (calm_dateOf args).bind fun _ _ h => by cases h
  · exact (calm_dateOf args).bind fun _ _ => (calm_clockOf args).bind fun _ _ h => by cases h
  · exact (calm_clockOf args).bind fun _ _ h => by cases h
  · exact (calm_durationOf args).bind fun _ _ h => by cases h
  · exact (calm_offsetOf args).bind fun _ _ h => by cases h
  · rintro - t rfl
    cases t <;> contradiction

end Temporal

end FilterLang
