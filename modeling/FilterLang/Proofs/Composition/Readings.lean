import FilterLang.Composition.Basic
import FilterLang.Proofs.Fallible
/-!
Compositions with a record of the expressions that they evaluate.

A recorded run keeps, for each expression, the context that it is evaluated in and what the
fragments before it in its list have added to that context (`Reading`); a failure keeps the
readings that came before it. The functions here follow those of composition step by step, and
the record changes nothing in the outcome (`outcome_record`). What is claimed of all readings is
proved from one lemma for a chain of computations (`Recorded.All.bind`).
-/

namespace FilterLang.Composition

open Fallible Table

/-- An expression that a composition evaluates: its text, the context that it is evaluated in, and
what the fragments before it in its list have added to that context. -/
structure Reading where
  text : String
  context : Context
  added : Table Json

/-! ## Recorded runs -/

/-- The outcome of a computation, and the expressions that it evaluated on the way. -/
structure Recorded (α : Type) where
  readings : List Reading
  outcome : Outcome α

namespace Recorded

variable {α β : Type}

/-- A computation that evaluates no expression. -/
def lift (x : Outcome α) : Recorded α :=
  ⟨[], x⟩

/-- A failure keeps the readings that came before it. -/
def andThen (x : Recorded α) (f : α → Recorded β) : Recorded β :=
  match x.outcome with
  | .ok a => ⟨x.readings ++ (f a).readings, (f a).outcome⟩
  | .error e => ⟨x.readings, .error e⟩

instance : Monad Recorded where
  pure a := lift (.ok a)
  bind := andThen

@[simp] theorem outcome_lift (x : Outcome α) : (lift x).outcome = x := rfl

@[simp] theorem outcome_bind (x : Recorded α) (f : α → Recorded β) :
    (x >>= f).outcome = x.outcome >>= fun a => (f a).outcome := by
  show (andThen x f).outcome = _
  unfold andThen
  cases x.outcome <;> rfl

/-- All readings of a computation have a property. -/
def All (P : Reading → Prop) (x : Recorded α) : Prop :=
  ∀ r ∈ x.readings, P r

variable {P : Reading → Prop}

theorem all_lift (x : Outcome α) : All P (lift x) :=
  fun _ hr => nomatch hr

theorem all_pure (a : α) : All P (pure a : Recorded α) :=
  all_lift (.ok a)

theorem All.bind {x : Recorded α} {f : α → Recorded β} (hx : All P x)
    (hf : ∀ a, x.outcome = .ok a → All P (f a)) : All P (x >>= f) := by
  show All P (andThen x f)
  unfold andThen
  split
  · next a ha =>
    intro r hr
    exact (List.mem_append.mp hr).elim (hx r) (hf a ha r)
  · exact hx

end Recorded

open Recorded

/-- Evaluates an expression as a fragment, and records it. -/
def recordText (host : Host) (added : Table Json) (c : Context) (text : String) :
    Recorded (Json × Context) :=
  let r : Reading := ⟨text, reflect c, added⟩
  ⟨[r], do return (← evalSource host r.context r.text, r.context)⟩

mutual

def recordContext (host : Host) (added : Table Json) (c : Context) :
    Fragment → Recorded (Json × Context)
  | .literal j => pure (j, c)
  | .expression text => recordText host added c text
  | .compound inner parts => do
    let scope ← (if inner.isEmpty then pure [] else
      recordContext host [] (seed host []) inner >>= fun left => lift (contextMembers left.1))
    return (.object (← recordContexts host (extend c scope) [] parts), c)

/-- `composeContexts` with a record. The result is what has been added. -/
def recordContexts (host : Host) (c : Context) (result : Table Json) :
    List Fragment → Recorded (Table Json)
  | [] => pure result
  | f :: rest =>
    if f.isEmpty then recordContexts host c result rest
    else do
      let (j, c) ← recordContext host result c f
      let members ← lift (contextMembers j)
      recordContexts host (extend c members) (overlay result members) rest

end

mutual

/-- `evalDomain` with a record. The fragments of a domain add nothing. -/
def recordDomain (host : Host) (c : Context) : Fragment → Recorded (Json × Context)
  | .literal j => pure (j, c)
  | .expression text => recordText host [] c text
  | .compound inner parts => do
    let own ← recordContexts host (seed host []) [] [inner]
    return (.array (← recordDomains host (extend c own) (isMarked parts) parts), c)

def recordDomains (host : Host) (c : Context) (normalize : Bool) :
    List Fragment → Recorded (List Json)
  | [] => pure []
  | f :: rest =>
    if f.isEmpty then recordDomains host c normalize rest
    else do
      let (j, c) ← recordDomain host c f
      let items ← lift (domainItems j)
      let later ← recordDomains host c normalize rest
      return (if normalize then Domain.normalize items else items) ++ later

end

def recordGroupBys (host : Host) (c : Context) (added : Table Json) :
    List Fragment → Recorded (List Json)
  | [] => pure []
  | f :: rest =>
    if f.isEmpty then recordGroupBys host c added rest
    else do
      let (j, c) ← recordContext host added c f
      match j with
      | .object members =>
        match ← lift (groupNames? members) with
        | some names =>
          return names ++
            (← recordGroupBys host (extend c members) (overlay added members) rest)
        | none => recordGroupBys host c added rest
      | _ => recordGroupBys host c added rest

def record (host : Host) (kind : FragmentKind) (docs : List Json) (base : Table Json) :
    Recorded Json := do
  let fragments ← lift (Fragment.ofItems docs)
  match kind with
  | .context => return .object (← recordContexts host (seed host base) [] fragments)
  | .domain =>
    return .array (← recordDomains host (seed host base) (isMarked fragments) fragments)
  | .groupBy => return .array (← recordGroupBys host (seed host base) [] fragments)

/-! ## The record changes nothing -/

mutual

theorem outcome_recordContext (host : Host) (added : Table Json) (c : Context) :
    (f : Fragment) → (recordContext host added c f).outcome = evalContext host c f
  | .literal j => rfl
  | .expression text => rfl
  | .compound inner parts => by
    rw [recordContext, evalContext, outcome_bind]
    have hscope : (if inner.isEmpty = true then pure [] else
        recordContext host [] (seed host []) inner >>= fun left =>
          lift (contextMembers left.1) : Recorded (Table Json)).outcome =
        if inner.isEmpty = true then pure [] else
          evalContext host (seed host []) inner >>= (contextMembers ·.1) := by
      split
      · rfl
      · rw [outcome_bind, outcome_recordContext host [] (seed host []) inner]
        rfl
    rw [hscope]
    refine bind_congr fun scope => ?_
    rw [outcome_bind, outcome_recordContexts host (extend c scope) [] parts]
    rfl

theorem outcome_recordContexts (host : Host) (c : Context) (result : Table Json) :
    (fs : List Fragment) →
      (recordContexts host c result fs).outcome = composeContexts host c result fs
  | [] => rfl
  | f :: rest => by
    rw [recordContexts, composeContexts]
    split
    · exact outcome_recordContexts host c result rest
    · rw [outcome_bind, outcome_recordContext host result c f]
      refine bind_congr fun left => ?_
      rw [outcome_bind]
      refine bind_congr fun members => ?_
      exact outcome_recordContexts host (extend left.2 members) (overlay result members) rest

end

mutual

theorem outcome_recordDomain (host : Host) (c : Context) :
    (f : Fragment) → (recordDomain host c f).outcome = evalDomain host c f
  | .literal j => rfl
  | .expression text => rfl
  | .compound inner parts => by
    rw [recordDomain, evalDomain, outcome_bind, outcome_recordContexts, compoundScope, bind_assoc]
    refine bind_congr fun own => ?_
    rw [outcome_bind, outcome_recordDomains host (extend c own) (isMarked parts) parts]
    rfl

theorem outcome_recordDomains (host : Host) (c : Context) (normalize : Bool) :
    (fs : List Fragment) →
      (recordDomains host c normalize fs).outcome = composeDomains host c normalize fs
  | [] => rfl
  | f :: rest => by
    rw [recordDomains, composeDomains]
    split
    · exact outcome_recordDomains host c normalize rest
    · rw [outcome_bind, outcome_recordDomain host c f]
      refine bind_congr fun left => ?_
      rw [outcome_bind]
      refine bind_congr fun items => ?_
      rw [outcome_bind, outcome_recordDomains host left.2 normalize rest]
      rfl

end

theorem outcome_recordGroupBys (host : Host) (c : Context) (added : Table Json)
    (fs : List Fragment) :
    (recordGroupBys host c added fs).outcome = composeGroupBys host c fs := by
  induction fs generalizing c added with
  | nil => rfl
  | cons f rest ih =>
    rw [recordGroupBys, composeGroupBys]
    split
    · exact ih c added
    · rw [outcome_bind, outcome_recordContext host added c f]
      refine bind_congr fun left => ?_
      obtain ⟨j, d⟩ := left
      cases j with
      | object members =>
        dsimp only
        rw [outcome_bind]
        refine bind_congr fun found => ?_
        cases found with
        | none => exact ih d added
        | some names =>
          dsimp only
          rw [outcome_bind, ih]
          rfl
      | null | bool | int | float | str | array => exact ih d added

theorem outcome_record (host : Host) (kind : FragmentKind) (docs : List Json)
    (base : Table Json) : (record host kind docs base).outcome = evaluate host kind docs base := by
  rw [record, evaluate, outcome_bind, outcome_lift]
  refine bind_congr fun fragments => ?_
  cases kind with
  | context =>
    dsimp only
    rw [outcome_bind, outcome_recordContexts]
    rfl
  | domain =>
    dsimp only
    rw [outcome_bind, outcome_recordDomains]
    rfl
  | groupBy =>
    dsimp only
    rw [outcome_bind, outcome_recordGroupBys]
    rfl

end FilterLang.Composition
