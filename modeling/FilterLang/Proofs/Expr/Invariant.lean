import FilterLang.Proofs.Expr.Children
import FilterLang.Proofs.Value.Invocation
import FilterLang.Expr.Eval
/-!
Evaluation comes upon sound values only.

The context of the calendar over a document is sound (`Context.sound_seeded`). In a sound context
an expression has a sound value or an ordinary fault: one induction goes over its parts, given
calls that are safe, and another over the number of lambda bodies inside each other, which makes
them so. What a lambda sees when it is called is again a sound context, so that this holds
wherever evaluation goes (`evaluation_wellFormed`).
-/

namespace FilterLang

open Fallible Value

variable {host : Host}

/-! ## Contexts -/

namespace Context

theorem sound_extend {c : Context} (hc : c.Sound) (site : Identity) (members : Table Json) :
    (c.extend site members).Sound :=
  Table.forall_overlay hc (List.forall_mem_map.mpr fun m _ => sound_ofJson (site.entry m.1) m.2)

/-- The names around the calendar and the clock are classes and functions of the language. -/
theorem sound_helpers (host : Host) (site : Identity) : (helpers host site).Sound := by
  simp [Context.Sound, helpers, datetimeModule, timeModule, sound_object, Class.isPlain]

theorem sound_seeded (host : Host) (site : Identity) (members : Table Json) :
    (seeded host site members).Sound :=
  sound_extend (sound_helpers host site) site members

theorem sound_builtin? {name : String} {v : Value} (h : builtin? name = some v) : v.Sound := by
  unfold builtin? at h
  split at h <;> cases h <;> simp

theorem Sound.safe_lookup {c : Context} (hc : c.Sound) (name : String) :
    Safe host Value.Sound (c.lookup name) := by
  unfold lookup
  split
  · rename_i v hv
    rcases Option.or_eq_some_iff.mp hv with hv | ⟨_, hv⟩
    · exact hc _ (Table.mem_of_get? hv)
    · exact sound_builtin? hv
  · trivial

end Context

theorem CompareOp.calm_holds {site : Identity} {a b : Value} (ha : a.Sound) (hb : b.Sound)
    (op : CompareOp) : Calm host (op.holds host site a b) := by
  have hcompare : ∀ op : CompareOp,
      Calm host (a.compareBy host site op b >>= fun v => v.isTruthy host site) :=
    fun op => (safe_compareBy ha hb op).bind fun _ hv => hv.calm_isTruthy
  cases op with
  | same | notSame => trivial
  | isIn => exact hb.calm_contains ha
  | notIn => exact (hb.calm_contains ha).bind fun _ _ => trivial
  | _ => exact hcompare _

namespace Expr

/-! ## Parts -/

/-- Calls that give sound values on sound values. -/
def SafeCalls (host : Host) (call : Caller) : Prop :=
  ∀ {site : Identity} {f : Value} {args : List Value} {keywords : List (String × Value)},
    f.Sound → (∀ v ∈ args, v.Sound) → (∀ p ∈ keywords, p.2.Sound) →
    Safe host Sound (call site f args keywords)

/-- An expression has a sound value or an ordinary fault, at every place. -/
def SafeIn (host : Host) (call : Caller) (c : Context) (e : Expr) : Prop :=
  ∀ site, Safe host Sound (evalWith host call c site e)

section Parts

variable {call : Caller} {c : Context}

theorem safe_evalItems {items : List Expr} (h : ∀ e ∈ items, SafeIn host call c e)
    (site : Identity) (i : Nat) :
    Safe host (fun vs => ∀ v ∈ vs, v.Sound) (evalItems host call c site i items) := by
  induction items generalizing i with
  | nil =>
    rw [evalItems]
    exact List.forall_mem_nil _
  | cons e rest ih =>
    rw [evalItems]
    refine (h e (by simp) _).bind fun v hv => ?_
    refine (ih (fun x hx => h x (by simp [hx])) (i + 1)).bind fun vs hvs => ?_
    exact List.forall_mem_cons.mpr ⟨hv, hvs⟩

theorem safe_evalArgs {args : List Expr} (h : ∀ e ∈ args, SafeIn host call c e)
    (hkeyword : ∀ n v, keyword n v ∈ args → SafeIn host call c v) (site : Identity) (i : Nat) :
    Safe host (fun x => (∀ v ∈ x.1, v.Sound) ∧ ∀ p ∈ x.2, p.2.Sound)
      (evalArgs host call c site i args) := by
  induction args generalizing i with
  | nil =>
    rw [evalArgs]
    exact ⟨List.forall_mem_nil _, List.forall_mem_nil _⟩
  | cons e rest ih =>
    have hrest := ih (fun x hx => h x (by simp [hx])) (fun n v hx => hkeyword n v (by simp [hx]))
      (i + 1)
    -- a keyword is no expression of its own: its value is evaluated in its place
    by_cases he : ∃ n v, e = keyword n v
    · obtain ⟨n, value, rfl⟩ := he
      rw [evalArgs]
      refine (hkeyword n value (by simp) _).bind fun v hv => hrest.bind fun x hx => ?_
      exact ⟨hx.1, List.forall_mem_cons.mpr ⟨hv, hx.2⟩⟩
    · rw [evalArgs_positional fun n v heq => he ⟨n, v, heq⟩]
      refine (h e (by simp) _).bind fun v hv => hrest.bind fun x hx => ?_
      exact ⟨List.forall_mem_cons.mpr ⟨hv, hx.1⟩, hx.2⟩

theorem calm_evalLinks {links : List (CompareOp × Expr)}
    (h : ∀ l ∈ links, SafeIn host call c l.2) (site : Identity) {left : Value}
    (hleft : left.Sound) : Calm host (evalLinks host call c site left links) := by
  -- the right operand of one link is the left operand of the next
  induction links generalizing site left with
  | nil =>
    rw [evalLinks]
    trivial
  | cons l rest ih =>
    obtain ⟨op, e⟩ := l
    rw [evalLinks, evalLink]
    refine (h (op, e) (by simp) _).bind fun right hright => ?_
    refine (op.calm_holds hleft hright).bind fun holds _ => ?_
    exact Lands.ite (fun _ => ih (fun x hx => h x (by simp [hx])) _ hright) fun _ => trivial

theorem safe_evalEntries {entries : List (Expr × Expr)}
    (h : ∀ p ∈ entries, SafeIn host call c p.1 ∧ SafeIn host call c p.2) (site : Identity)
    (i : Nat) {d : Dict} (hd : d.Sound) :
    Safe host Dict.Sound (evalEntries host call c site i d entries) := by
  induction entries generalizing i d with
  | nil =>
    rw [evalEntries]
    exact hd
  | cons p rest ih =>
    obtain ⟨key, value⟩ := p
    obtain ⟨hkey, hvalue⟩ := h (key, value) (by simp)
    rw [evalEntries, evalEntry]
    simp only [bind_assoc, pure_eq, ok_bind]
    refine (hkey _).bind fun k hk => (hvalue _).bind fun v hv => ?_
    refine (hd.safe_insert hk hv).bind fun d' hd' => ?_
    exact ih (fun q hq => h q (by simp [hq])) (i + 1) hd'

end Parts

/-! ## Whole expressions -/

/-- A choice by the truth of a sound value. -/
theorem safe_choice {site : Identity} {v : Value} (hv : v.Sound) {x y : Outcome Value}
    (hx : Safe host Sound x) (hy : Safe host Sound y) :
    Safe host Sound (v.isTruthy host site >>= fun truthy => if truthy then x else y) :=
  hv.calm_isTruthy.bind fun _ _ => Lands.ite (fun _ => hx) fun _ => hy

/-- In a sound context, with safe calls, an expression has a sound value or an ordinary fault. -/
theorem safeIn {call : Caller} (hcall : SafeCalls host call) {c : Context} (hc : c.Sound)
    (e : Expr) : SafeIn host call c e ∧ ∀ n v, e = keyword n v → SafeIn host call c v := by
  -- the value of a keyword argument is evaluated by the call that it stands in
  induction e using inductionOnChildren with
  | step e ih =>
    refine ⟨?_, fun n v he => (ih v (by simp [he, children])).1⟩
    intro site
    have hpart : ∀ x ∈ e.children, ∀ place, Safe host Sound (evalWith host call c place x) :=
      fun x hx place => (ih x hx).1 place
    cases e with
    | name n => exact hc.safe_lookup n
    | number x => exact sound_number x
    | str raw unicode =>
      rw [evalWith]
      split
      · exact sound_str _
      · trivial
    | const k => cases k <;> simp [evalWith, Constant.value, Lands]
    | keyword n v =>
      rw [evalWith]
      trivial
    | unary op operand =>
      rw [evalWith]
      exact (hpart operand (by simp [children]) _).bind fun v hv => hv.safe_unary op
    | not operand =>
      rw [evalWith]
      refine (hpart operand (by simp [children]) _).bind fun v hv => ?_
      exact safe_read hv.calm_isTruthy fun _ => sound_bool _
    | binary op left right =>
      rw [evalWith]
      refine (hpart left (by simp [children]) _).bind fun a ha => ?_
      exact (hpart right (by simp [children]) _).bind fun b hb => safe_binary ha hb op
    | and left right =>
      rw [evalWith]
      refine (hpart left (by simp [children]) _).bind fun a ha => ?_
      exact safe_choice ha (hpart right (by simp [children]) _) ha
    | or left right =>
      rw [evalWith]
      refine (hpart left (by simp [children]) _).bind fun a ha => ?_
      exact safe_choice ha ha (hpart right (by simp [children]) _)
    | conditional body test orelse =>
      rw [evalWith]
      refine (hpart test (by simp [children]) _).bind fun a ha => ?_
      exact safe_choice ha (hpart body (by simp [children]) _) (hpart orelse (by simp [children]) _)
    | compare first links =>
      rw [evalWith]
      refine (hpart first (by simp [children]) _).bind fun left hleft => ?_
      have hlinks : ∀ l ∈ links, SafeIn host call c l.2 := fun l hl =>
        hpart l.2 (List.mem_cons_of_mem _ (List.mem_map_of_mem hl))
      exact safe_read (calm_evalLinks hlinks site hleft) fun _ => sound_bool _
    | call callee args =>
      have hmem : ∀ a ∈ args, a ∈ (Expr.call callee args).children :=
        fun a ha => List.mem_cons_of_mem _ ha
      rw [evalWith]
      refine (hpart callee (by simp [children]) _).bind fun f hf => ?_
      refine (safe_evalArgs (fun a ha => hpart a (hmem a ha))
        (fun n v ha => (ih _ (hmem _ ha)).2 n v rfl) site 1).bind fun x hx => ?_
      exact hcall hf hx.1 hx.2
    | attr object n =>
      rw [evalWith]
      exact (hpart object (by simp [children]) _).bind fun v hv => hv.safe_getAttr n
    | subscript object index =>
      rw [evalWith]
      refine (hpart object (by simp [children]) _).bind fun v hv => ?_
      exact (hpart index (by simp [children]) _).bind fun k hk => hv.safe_getItem hk
    | tuple items =>
      rw [evalWith]
      exact (safe_evalItems hpart site 0).bind fun _ hvs => sound_tuple.mpr hvs
    | list items =>
      rw [evalWith]
      exact (safe_evalItems hpart site 0).bind fun _ hvs => sound_list.mpr hvs
    | dict entries =>
      rw [evalWith]
      refine (safe_evalEntries (fun p hp => ?_) site 0 Dict.sound_nil).bind
        fun _ hd => sound_dict.mpr hd
      constructor <;> exact hpart _ (List.mem_flatMap.mpr ⟨p, hp, by simp⟩)
    | lambda params body =>
      rw [evalWith]
      exact sound_lambda.mpr hc

/-- Under any bound on the lambda bodies inside each other, an expression has a sound value or an
ordinary fault in a sound context. -/
theorem safe_evalWithin (e : Expr) (depth : Nat) {c : Context} (hc : c.Sound) (site : Identity) :
    Safe host Sound (evalWithin host depth c site e) := by
  induction depth generalizing c site e with
  | zero => trivial
  | succ depth ih =>
    -- calls at this depth run bodies at the depth below, where the statement holds
    refine (safeIn ?_ hc e).1 site
    intro site f args keywords hf hargs hkeywords
    exact hf.safe_callWith (fun body scope hscope => ih body hscope (site.child 0)) hargs hkeywords

end Expr

/-! ## Everything that is evaluated -/

mutual

/-- The contexts in which expressions come to be evaluated: the calendar names over a document,
and what a lambda sees when it is called. -/
inductive Visible (host : Host) : Context → Prop
  | seeded (site : Identity) (members : Table Json) :
    Visible host (Context.seeded host site members)
  | called {id : Identity} {params : List String} {body : Expr} {closure : List (String × Value)}
    {args : List Value} {keywords : List (String × Value)} {b : Bound}
    (hf : Evaluated host (.lambda id params body closure)) (hargs : ∀ v ∈ args, Evaluated host v)
    (hkeywords : ∀ p ∈ keywords, Evaluated host p.2)
    (hb : (Signature.ofNames params).bind "<lambda>" args keywords = .ok b) :
    Visible host (Table.overlay closure b.named)

/-- The values of the expressions that come to be evaluated. -/
inductive Evaluated (host : Host) : Value → Prop
  | value {c : Context} {depth : Nat} {site : Identity} {e : Expr} {v : Value}
    (hc : Visible host c) (h : e.evalWithin host depth c site = .ok v) : Evaluated host v

end

mutual

theorem Visible.sound {c : Context} : Visible host c → c.Sound
  | .seeded site members => Context.sound_seeded host site members
  | @Visible.called _ _ params _ _ args keywords b hf hargs hkeywords hb => by
    have hbound : Safe host (Bound.All Sound)
        ((Signature.ofNames params).bind "<lambda>" args keywords) :=
      Signature.safe_bind (Signature.defaults_ofNames params) _ (fun v hv => (hargs v hv).sound)
        fun p hp => (hkeywords p hp).sound
    rw [hb] at hbound
    exact Table.forall_overlay (sound_lambda.mp hf.sound) (Bound.All.named hbound)

theorem Evaluated.sound {v : Value} : Evaluated host v → v.Sound
  | @Evaluated.value _ _ depth site e _ hc h => by
    have hsafe : Safe host Sound (e.evalWithin host depth _ site) :=
      e.safe_evalWithin depth hc.sound site
    rw [h] at hsafe
    exact hsafe

end

/-- Wherever an evaluation goes, from the calendar names over any document into the bodies of the
lambdas that it calls, the values of expressions are well formed throughout, with what their
lambdas keep and with the keys and values of their dicts. No fault is the check on the months of
an offset, and none comes of a calendar value whose fields cannot be read. -/
theorem evaluation_wellFormed {c : Context} (hc : Visible host c) (e : Expr) (depth : Nat)
    (site : Identity) :
    (∀ v, e.evalWithin host depth c site = .ok v → v.Throughout Part WellFormed) ∧
      ∀ fault, e.evalWithin host depth c site = .error fault →
        fault ≠ .ofCalendar .relativeMonths ∧ ¬ fault.FailedRead host := by
  have hsafe : Safe host Sound (e.evalWithin host depth c site) :=
    e.safe_evalWithin depth hc.sound site
  constructor
  · intro v hv
    rw [hv] at hsafe
    exact Value.Sound.wellFormed hsafe
  · intro fault hfault
    rw [hfault] at hsafe
    exact EvalError.Ordinary.unbroken hsafe

/-- Today, as the first expression of a context gives it. -/
def today : Value :=
  .temporal .origin (.date Host.idle.localTime.date)

/-- What a lambda sees that was written among the calendar names and is called on today. -/
def datedContext : Context :=
  Table.overlay (Context.seeded .idle .origin []) [("d", today)]

/-- A dict with today as its key and a lambda that keeps today as its value. -/
def datedDict : Expr :=
  .dict [(.name "d", .lambda [] (.name "d"))]

def todayKey : HashKey :=
  .instanceOf .date (.ofNumber (.ofFloat (Number.ofInt Host.idle.localTime.date.ordinal)))

def datedValue : Value :=
  .dict .origin {
    entries := [(today, .lambda (.operand (.operand .origin 0) 1) [] (.name "d") datedContext)]
    index := [(todayKey, 0)] }

/-- A method of dates that is called on the class of dates. -/
def receiverless : Expr :=
  .call (.attr (.attr (.name "datetime") "date") "isoformat") []

theorem visible_datedContext : Visible .idle datedContext := by
  have hseeded : Visible .idle (Context.seeded .idle .origin []) := .seeded .origin []
  have hlambda : (Expr.lambda ["d"] datedDict).evalWithin .idle 1 (Context.seeded .idle .origin [])
      .origin = .ok (.lambda .origin ["d"] datedDict (Context.seeded .idle .origin [])) := rfl
  have htoday : (Expr.call (.name "context_today") []).evalWithin .idle 1
      (Context.seeded .idle .origin []) .origin = .ok today := by
    with_unfolding_all rfl
  have hargs : ∀ v ∈ [today], Evaluated .idle v :=
    fun v hv => List.mem_singleton.mp hv ▸ .value hseeded htoday
  exact .called (.value hseeded hlambda) hargs (List.forall_mem_nil _) rfl

theorem evalWithin_datedDict : datedDict.evalWithin .idle 1 datedContext .origin = .ok datedValue := by
  with_unfolding_all rfl

theorem evalWithin_receiverless : receiverless.evalWithin .idle 1 datedContext .origin =
    .error (.type (.receiver "date" "type")) := by
  with_unfolding_all rfl

theorem evaluation_wellFormed_datedDict :
    Visible .idle datedContext ∧
      datedDict.evalWithin .idle 1 datedContext .origin = .ok datedValue ∧
      datedValue.Throughout Part WellFormed ∧
      receiverless.evalWithin .idle 1 datedContext .origin =
        .error (.type (.receiver "date" "type")) ∧
      ¬ (EvalError.type (.receiver "date" "type")).FailedRead .idle :=
  ⟨visible_datedContext, evalWithin_datedDict,
    (evaluation_wellFormed visible_datedContext datedDict 1 .origin).1 _ evalWithin_datedDict,
    evalWithin_receiverless,
    ((evaluation_wellFormed visible_datedContext receiverless 1 .origin).2 _
      evalWithin_receiverless).2⟩

end FilterLang
