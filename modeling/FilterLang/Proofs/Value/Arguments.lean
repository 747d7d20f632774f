import FilterLang.Proofs.Value.Shape
/-!
Calendar methods see little of their arguments.

A method of a calendar value looks at its receiver and its arguments only through views:
the number, the text or the calendar value that one is, whether it is `None`, and the name
of its class. Values resemble each other when they have the same views, and calls on values
that resemble each other give the same. A value resembles its shape, so a call with the
shape of an argument gives what the call with the argument gives. Hence the operators of
calendar values treat the two forms of lists and dicts alike.
-/

namespace FilterLang

/-! ## Views -/

namespace Value

/-- Whether a calendar method sees more of a value than its class. -/
def isSeen : Value → Bool
  | null | bool _ | float _ | str _ | temporal .. => true
  | _ => false

/-- Values that calendar methods do not tell apart. -/
inductive Resembles : Value → Value → Prop
  | same (v : Value) : Resembles v v
  | unseen {v w : Value} (hv : v.isSeen = false) (hw : w.isSeen = false)
    (hclass : v.classOf = w.classOf) : Resembles v w

theorem resembles_shape (v : Value) : v.shape.Resembles v := by
  cases v with
  | tuple | list | dict | nativeList | nativeDict => exact .unseen rfl rfl rfl
  | _ => exact .same _

namespace Resembles

variable {v w : Value}

/-- What shows nothing of unseen values shows the same of values that resemble each other. -/
theorem observe {α : Type} (h : Resembles v w) (view : Value → Option α)
    (hview : ∀ u : Value, u.isSeen = false → view u = none) : view v = view w := by
  cases h with
  | same => rfl
  | unseen hv hw _ => rw [hview v hv, hview w hw]

theorem typeName (h : Resembles v w) : v.typeName = w.typeName := by
  cases h with
  | same => rfl
  | unseen _ _ hclass => rw [Value.typeName, Value.typeName, hclass]

theorem isNone (h : Resembles v w) : v.isNone = w.isNone := by
  cases h with
  | same => rfl
  | unseen hv hw _ => cases v <;> cases hv <;> cases w <;> cases hw <;> rfl

theorem date? (h : Resembles v w) : v.date? = w.date? :=
  h.observe _ fun u hu => by cases u <;> first | rfl | cases hu

theorem plainDate? (h : Resembles v w) : v.plainDate? = w.plainDate? :=
  h.observe _ fun u hu => by cases u <;> first | rfl | cases hu

theorem datetime? (h : Resembles v w) : v.datetime? = w.datetime? :=
  h.observe _ fun u hu => by cases u <;> first | rfl | cases hu

theorem clock? (h : Resembles v w) : v.clock? = w.clock? :=
  h.observe _ fun u hu => by cases u <;> first | rfl | cases hu

theorem duration? (h : Resembles v w) : v.duration? = w.duration? :=
  h.observe _ fun u hu => by cases u <;> first | rfl | cases hu

theorem offset? (h : Resembles v w) : v.offset? = w.offset? :=
  h.observe _ fun u hu => by cases u <;> first | rfl | cases hu

theorem float? (h : Resembles v w) : v.float? = w.float? :=
  h.observe _ fun u hu => by cases u <;> first | rfl | cases hu

theorem integer? (h : Resembles v w) : v.integer? = w.integer? :=
  h.observe _ fun u hu => by cases u <;> first | rfl | cases hu

theorem text? (h : Resembles v w) : v.text? = w.text? :=
  h.observe _ fun u hu => by cases u <;> first | rfl | cases hu

theorem receiver {α : Type} (h : Resembles v w) (wanted : String) {view : Value → Option α}
    (hview : view v = view w) : v.receiver wanted view = w.receiver wanted view := by
  rw [Value.receiver, Value.receiver, hview, h.typeName]

theorem offsetReceiver (h : Resembles v w) : v.offsetReceiver = w.offsetReceiver := by
  rw [Value.offsetReceiver, Value.offsetReceiver, h.offset?]

end Resembles

end Value

/-! ## Binding -/

def Bound.shape (b : Bound) : Bound :=
  { b with values := b.values.map Value.shape, rest := b.rest.map Value.shape }

@[simp] theorem Bound.get_shape (b : Bound) (name : String) :
    b.shape.get name = (b.get name).shape := by
  have hsignature : b.shape.signature = b.signature := rfl
  rw [Bound.get, Bound.get, hsignature]
  cases b.signature.indexOf? name with
  | none => rfl
  | some i =>
    have hvalues : b.shape.values = b.values.map Value.shape := rfl
    simp only [hvalues, List.getD_eq_getElem?_getD, List.getElem?_map]
    cases b.values[i]? <;> rfl

/-- The defaults of a signature are their own shapes. -/
def Signature.Settled (s : Signature) : Prop :=
  ∀ p ∈ s.params, p.default.map Value.shape = p.default

namespace Signature

theorem fill_shape (callee : String) (params : List Param)
    (h : ∀ p ∈ params, p.default.map Value.shape = p.default) (slots : List (Option Value)) :
    fill callee params (slots.map (Option.map Value.shape)) =
      (fill callee params slots).map (List.map Value.shape) := by
  induction params generalizing slots with
  | nil => rfl
  | cons p params ih =>
    have hp : p.default.map Value.shape = p.default := h p (by simp)
    have hslot : (slots.map (Option.map Value.shape)).head?.join.or p.default =
        (slots.head?.join.or p.default).map Value.shape := by
      rcases slots with _ | ⟨_ | v, slots⟩
      · exact hp.symm
      · exact hp.symm
      · rfl
    have htail : (slots.map (Option.map Value.shape)).tail =
        slots.tail.map (Option.map Value.shape) := by
      cases slots <;> rfl
    rw [fill, fill, hslot, htail, ih fun q hq => h q (by simp [hq])]
    cases slots.head?.join.or p.default with
    | none => rfl
    | some v => cases fill callee params slots.tail <;> rfl

/-- The slots that positional arguments fill, and the empty ones after them. -/
def slots (s : Signature) (args : List Value) : List (Option Value) :=
  (args.take s.positional).map some ++
    List.replicate (s.params.length - (args.take s.positional).length) none

/-- How arguments are bound. -/
theorem bind_eq (s : Signature) (callee : String) (args : List Value)
    (keywords : List (String × Value)) :
    s.bind callee args keywords =
      s.place callee (s.slots args) keywords >>= fun placed =>
        fill callee s.params placed.1 >>= fun values =>
          if !(args.drop s.positional).isEmpty && s.rest.isNone then
            .error (.type (.tooManyArguments callee s.positional args.length))
          else
            match placed.2.head?, s.keywords with
            | some (name, _), none => .error (.type (.unexpectedKeyword callee name))
            | _, _ => .ok { signature := s, values, rest := args.drop s.positional,
                            keywords := placed.2 } := by
  rw [bind, slots, List.length_map]
  refine congrArg _ (funext fun ⟨placed, extra⟩ => ?_)
  dsimp only
  refine congrArg _ (funext fun values => ?_)
  by_cases h : (!(args.drop s.positional).isEmpty && s.rest.isNone) = true
  · rw [if_pos h, if_pos h]
    rfl
  · rw [if_neg h, if_neg h]
    rfl

theorem bind_positional (s : Signature) (callee : String) (args : List Value) :
    s.bind callee args [] = fill callee s.params (s.slots args) >>= fun values =>
      if !(args.drop s.positional).isEmpty && s.rest.isNone then
        .error (.type (.tooManyArguments callee s.positional args.length))
      else .ok { signature := s, values, rest := args.drop s.positional, keywords := [] } := by
  rw [bind_eq]
  rfl

theorem slots_shape (s : Signature) (args : List Value) :
    s.slots (args.map Value.shape) = (s.slots args).map (Option.map Value.shape) := by
  simp [slots, ← List.map_take]

/-- Binding positional arguments goes through their shapes. -/
theorem bind_shape (s : Signature) (hs : s.Settled) (callee : String) (args : List Value) :
    s.bind callee (args.map Value.shape) [] = (s.bind callee args []).map Bound.shape := by
  rw [bind_positional, bind_positional, slots_shape, fill_shape callee s.params hs,
    ← List.map_drop, List.isEmpty_map, List.length_map]
  cases fill callee s.params (s.slots args) with
  | error e => rfl
  | ok values =>
    by_cases h : (!(args.drop s.positional).isEmpty && s.rest.isNone) = true
    · simp only [Except.map, Fallible.ok_bind, if_pos h]
    · simp only [Except.map, Fallible.ok_bind, if_neg h]
      rfl

end Signature

/-! ## Signatures -/

namespace Signature

def Defaults (P : Value → Prop) (s : Signature) : Prop :=
  ∀ p ∈ s.params, ∀ v, p.default = some v → P v

section Defaults

variable {P : Value → Prop} {s : Signature}

theorem defaults_nil : ({} : Signature).Defaults P := by
  intro p hp
  cases hp

theorem defaults_push (hs : s.Defaults P) {p : Param} (hp : ∀ v, p.default = some v → P v) :
    (s.push p).Defaults P := by
  intro q hq
  rcases List.mem_append.mp hq with hq | hq
  · exact hs q hq
  · cases List.mem_singleton.mp hq
    exact hp

theorem defaults_required (hs : s.Defaults P) (name : String) : (s.required name).Defaults P :=
  defaults_push hs fun _ hv => by cases hv

theorem defaults_optional (hs : s.Defaults P) (name : String) {default : Value}
    (hd : P default) : (s.optional name default).Defaults P :=
  defaults_push hs fun _ hv => by cases hv; exact hd

theorem defaults_ofNames (names : List String) : (ofNames names).Defaults P := by
  have hfold : ∀ s : Signature, s.Defaults P → (names.foldl required s).Defaults P := by
    induction names with
    | nil => exact fun s hs => hs
    | cons name names ih => exact fun s hs => ih (s.required name) (defaults_required hs name)
  exact hfold {} defaults_nil

end Defaults

/-- Settled signatures have defaults that are their own shapes. -/
theorem settled_iff {s : Signature} : s.Settled ↔ s.Defaults fun v => v.shape = v := by
  constructor
  · intro h p hp v hv
    have := h p hp
    rw [hv] at this
    exact Option.some.inj this
  · intro h p hp
    cases hv : p.default with
    | none => rfl
    | some v => exact congrArg some (h p hp v hv)

end Signature

namespace TemporalMethod

open Signature

/-- The defaults of calendar methods are nothing or a text. -/
theorem defaults_signature {P : Value → Prop} (hnull : P .null) (hstr : ∀ s, P (.str s))
    (m : TemporalMethod) : m.signature.Defaults P := by
  have hdate : replaceDate.Defaults P :=
    defaults_optional (defaults_optional (defaults_optional defaults_nil _ hnull) _ hnull) _ hnull
  cases m with
  | date m =>
    cases m with
    | replace => exact hdate
    | strftime | add | radd | sub | compare => exact defaults_ofNames _
    | _ => exact defaults_nil
  | datetime m =>
    cases m with
    | replace =>
      exact defaults_optional (defaults_optional (defaults_optional (defaults_optional
        (defaults_optional hdate _ hnull) _ hnull) _ hnull) _ hnull) _ hnull
    | isoformat => exact defaults_optional defaults_nil _ (hstr _)
    | strftime | combine | add | radd | sub | compare => exact defaults_ofNames _
    | _ => exact defaults_nil
  | time m =>
    cases m with
    | strftime | compare => exact defaults_ofNames _
    | _ => exact defaults_nil
  | duration m =>
    cases m with
    | add | radd | sub | rsub | mul | rmul | div | floordiv | compare => exact defaults_ofNames _
    | _ => exact defaults_nil
  | offset m =>
    cases m with
    | add | radd | rsub => exact defaults_ofNames _
    | _ => exact defaults_nil

theorem settled_signature (m : TemporalMethod) : m.signature.Settled := by
  rw [settled_iff]
  exact m.defaults_signature (P := fun v => v.shape = v) rfl fun _ => rfl

end TemporalMethod

/-! ## Calls -/

/-- Bound arguments that calendar methods do not tell apart. -/
def Bound.Resembles (b b' : Bound) : Prop :=
  ∀ name, (b.get name).Resembles (b'.get name)

theorem Bound.resembles_shape (b : Bound) : b.shape.Resembles b := by
  intro name
  rw [get_shape]
  exact (b.get name).resembles_shape

section Calls

variable (host : Host) (site : Identity) {this this' : Value} {b b' : Bound}

namespace Bound.Resembles

theorem layout (h : b.Resembles b') : b.layout = b'.layout := by
  have hformat := h "format"
  rw [Bound.layout.eq_def, Bound.layout.eq_def]
  generalize b.get "format" = v at hformat
  generalize b'.get "format" = w at hformat
  cases hformat with
  | same => rfl
  | unseen hv hw hclass =>
    cases v <;> cases hv <;> cases w <;> cases hw <;> simp [Value.typeName, hclass]

theorem durationPart (h : b.Resembles b') (name : String) :
    b.durationPart name = b'.durationPart name := by
  have hpart := h name
  rw [Bound.durationPart.eq_def, Bound.durationPart.eq_def]
  generalize b.get name = v at hpart
  generalize b'.get name = w at hpart
  cases hpart with
  | same => rfl
  | unseen hv hw hclass =>
    cases v <;> cases hv <;> cases w <;> cases hw <;> simp [Value.typeName, hclass]

theorem integer (h : b.Resembles b') (name : String) : b.integer name = b'.integer name := by
  rw [Bound.integer, Bound.integer, (h name).integer?, (h name).typeName]

theorem integerOr (h : b.Resembles b') (name : String) (n : Int) :
    b.integerOr name n = b'.integerOr name n := by
  rw [Bound.integerOr, Bound.integerOr, (h name).isNone, h.integer]

theorem integer? (h : b.Resembles b') (name : String) : b.integer? name = b'.integer? name := by
  rw [Bound.integer?, Bound.integer?, (h name).isNone, h.integer]

end Bound.Resembles

theorem OffsetMethod.change_resembles (o : Outcome Offset) {v w : Value} (h : v.Resembles w) :
    change site o v = change site o w := by
  cases h with
  | same => rfl
  | unseen hv hw _ => cases v <;> cases hv <;> cases w <;> cases hw <;> rfl

variable (hthis : this.Resembles this') (hb : b.Resembles b')

include hthis hb

theorem DateMethod.run_resembles (m : DateMethod) :
    m.run host site this b = m.run host site this' b' := by
  have hreceiver := hthis.receiver "date" hthis.date?
  cases m <;>
    simp [run, shift, replaced, compareBy, hreceiver, hthis.plainDate?, hb.layout, hb.integer?,
      (hb "other").duration?, (hb "other").plainDate?]

theorem DatetimeMethod.run_resembles (m : DatetimeMethod) :
    m.run host site this b = m.run host site this' b' := by
  have hreceiver := hthis.receiver "datetime" hthis.datetime?
  cases m <;>
    simp [run, shift, DateMethod.replaced, compareBy, hreceiver, hthis.datetime?, hb.layout,
      hb.integer?, hb.integerOr, (hb "other").duration?, (hb "other").datetime?,
      (hb "date").date?, (hb "time").clock?, (hb "sep").text?]

theorem TimeMethod.run_resembles (m : TimeMethod) : m.run this b = m.run this' b' := by
  have hreceiver := hthis.receiver "time" hthis.clock?
  cases m <;> simp [run, compareBy, hreceiver, hthis.clock?, hb.layout, (hb "other").clock?]

theorem DurationMethod.run_resembles (m : DurationMethod) :
    m.run site this b = m.run site this' b' := by
  have hreceiver := hthis.receiver "timedelta" hthis.duration?
  cases m <;>
    simp [run, combine, change, scale, divide, compareBy, hreceiver, hthis.duration?,
      (hb "other").duration?, (hb "other").float?]

theorem OffsetMethod.run_resembles (m : OffsetMethod) :
    m.run site this b = m.run site this' b' := by
  cases m <;>
    simp [run, hthis.offsetReceiver, fun o => OffsetMethod.change_resembles site o (hb "other")]

/-- A calendar method does not tell receivers or arguments apart that resemble each other. -/
theorem TemporalMethod.run_resembles (m : TemporalMethod) :
    m.run host site this b = m.run host site this' b' := by
  cases m with
  | date m => exact m.run_resembles host site hthis hb
  | datetime m => exact m.run_resembles host site hthis hb
  | time m => exact m.run_resembles hthis hb
  | duration m => exact m.run_resembles site hthis hb
  | offset m => exact m.run_resembles site hthis hb

omit hthis

/-- Neither does the making of a calendar value. -/
theorem Temporal.create_resembles (c : Class) : create c b = create c b' := by
  cases c <;>
    simp [create, dateOf, clockOf, durationOf, offsetOf, hb.integer, hb.integer?, hb.integerOr,
      hb.durationPart]

end Calls

/-- A calendar method gives the same result on the shapes of its arguments. -/
theorem TemporalMethod.call_shape (host : Host) (site : Identity) (this : Value)
    (m : TemporalMethod) (args : List Value) :
    (InstanceMethod.temporal m).call host site this (args.map Value.shape) =
      (InstanceMethod.temporal m).call host site this args := by
  rw [InstanceMethod.call, InstanceMethod.call, InstanceMethod.signature,
    Signature.bind_shape _ m.settled_signature]
  cases m.signature.bind (InstanceMethod.temporal m).name args [] with
  | error e => rfl
  | ok bound => exact m.run_resembles host site (.same this) bound.resembles_shape

end FilterLang
