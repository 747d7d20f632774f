import FilterLang.Proofs.Expr.Depth
import FilterLang.Proofs.Value.Binding
import FilterLang.Proofs.Value.Literal
/-!
A lambda that is called is its body where it was written.

A call may give the first arguments by position and the others by name, in any order. However
they are given, evaluating them leaves each value with the name of its parameter
(`evalArgs_passing`), and binding puts it there (`bind_passing`). What is left is the body, in the
context in which the lambda was written with the parameters on top of it. Where the call stands
does not matter beyond the values of its arguments (`application_substitutes`).
-/

namespace FilterLang

open Fallible

/-! ## Arguments by position and by name -/

/-- An argument with the name of the parameter that it is for. -/
structure Passing where
  name : String
  argument : Expr
  /-- Whether the argument is written with the name. -/
  byName : Bool

namespace Passing

/-- The argument as it stands in a call. -/
def expr (p : Passing) : Expr :=
  if p.byName then .keyword p.name p.argument else p.argument

/-- The names of the arguments that are given by position, in order. -/
def positional (given : List Passing) : List String :=
  (given.filter fun p => !p.byName).map (·.name)

/-- The names of the arguments that are given by name, in order. -/
def named (given : List Passing) : List String :=
  (given.filter (·.byName)).map (·.name)

/-- Each parameter has one argument, and the arguments by position are for the first parameters,
in order. -/
structure Covers (given : List Passing) (params : List String) : Prop where
  each : (given.map (·.name)).Perm params
  first : positional given <+: params

theorem positional_append_named (given : List Passing) :
    (positional given ++ named given).Perm (given.map (·.name)) := by
  rw [positional, named, ← List.map_append]
  refine List.Perm.map _ (List.perm_append_comm.trans ?_)
  exact List.filter_append_perm (·.byName) given

/-- The parameters after those that have their arguments by position have theirs by name. -/
theorem Covers.split {given : List Passing} {params : List String} (h : Covers given params) :
    ∃ others, params = positional given ++ others ∧ (named given).Perm others := by
  obtain ⟨others, rfl⟩ := h.first
  refine ⟨others, rfl, ?_⟩
  exact (List.perm_append_left_iff _).mp ((positional_append_named given).trans h.each)

end Passing

namespace Expr

variable {host : Host} {call : Caller} {c : Context} {site : Identity} {value : String → Value}

/-- The values of arguments come with the names that they were given, by position or by name. -/
theorem evalArgs_passing {given : List Passing} {i : Nat}
    (h : ∀ (j : Nat) (p : Passing), given[j]? = some p →
      evalWith host call c (site.operand (i + j)) p.argument = .ok (value p.name)) :
    evalArgs host call c site i (given.map Passing.expr) =
      .ok ((Passing.positional given).map value,
        (Passing.named given).map fun n => (n, value n)) := by
  induction given generalizing i with
  | nil => rfl
  | cons p given ih =>
    obtain ⟨n, argument, byName⟩ := p
    have hp : evalWith host call c (site.operand i) argument = .ok (value n) := h 0 _ rfl
    have hrest := ih (i := i + 1) fun j q hq => by
      rw [Nat.add_right_comm]
      exact h (j + 1) q hq
    cases byName with
    | true =>
      rw [List.map_cons, Passing.expr, if_pos rfl, evalArgs, hp, hrest]
      rfl
    | false =>
      -- an argument that has a value is no keyword
      have hne : ∀ m v, argument ≠ keyword m v := by
        rintro m v rfl
        rw [evalWith] at hp
        cases hp
      rw [List.map_cons, Passing.expr, if_neg Bool.false_ne_true, evalArgs_positional hne, hp, hrest]
      rfl

end Expr

/-! ## Binding -/

namespace Signature

theorem ofNames_eq_declared (params : List String) :
    ofNames params = declared (params.map .required) := by
  rw [declared, List.foldl_map]
  rfl

/-- Bound arguments keep their signature. -/
theorem signature_of_bind {s : Signature} {callee : String} {args : List Value}
    {keywords : List (String × Value)} {b : Bound} (h : s.bind callee args keywords = .ok b) :
    b.signature = s := by
  rw [bind_eq] at h
  obtain ⟨placed, -, h⟩ := bind_eq_ok.mp h
  obtain ⟨values, -, h⟩ := bind_eq_ok.mp h
  split at h
  · cases h
  · split at h <;> cases h
    rfl

end Signature

namespace Call

variable {first others named : List String} {value : String → Value}

theorem get?_named {names : List String} {n : String} (h : n ∈ names) :
    Table.get? (names.map fun n => (n, value n)) n = some (value n) := by
  induction names with
  | nil => cases h
  | cons m names ih =>
    rw [List.map_cons, Table.get?_cons]
    by_cases hm : m = n
    · rw [if_pos hm, hm]
    · rw [if_neg hm]
      exact ih ((List.mem_cons.mp h).resolve_left (Ne.symm hm))

/-- A call of a lambda: the first parameters by position, the others by name. -/
def ofPassing (first others named : List String) (value : String → Value) : Call :=
  .ofDeclarations ((first ++ others).map .required) (first.map value)
    (named.map fun n => (n, value n))

theorem filterMap_param? (names : List String) :
    (names.map Declaration.required).filterMap Declaration.param? =
      names.map fun n => ⟨n, none⟩ := by
  rw [List.filterMap_map]
  exact congrFun List.filterMap_eq_map names

theorem params_ofPassing :
    (ofPassing first others named value).params = (first ++ others).map fun n => ⟨n, none⟩ := by
  rw [ofPassing, ofDeclarations]
  exact filterMap_param? _

theorem limit_ofPassing :
    (ofPassing first others named value).limit = (first ++ others).length := by
  have hall : ((first ++ others).map Declaration.required).takeWhile (fun d => !d.isKeywordOnly) =
      (first ++ others).map Declaration.required := by
    refine List.takeWhile_eq_self_iff.mpr fun d hd => ?_
    obtain ⟨n, -, rfl⟩ := List.mem_map.mp hd
    rfl
  rw [ofPassing, ofDeclarations, hall]
  show (((first ++ others).map Declaration.required).filterMap Declaration.param?).length = _
  rw [filterMap_param?, List.length_map]

section Bound

variable (hnames : (first ++ others).Nodup) (hothers : named.Perm others)
include hothers

/-- A parameter is given by position or by name, in either way with its value. -/
theorem given?_ofPassing {i : Nat} {n : String} (hi : (first ++ others)[i]? = some n) :
    (ofPassing first others named value).given? i ⟨n, none⟩ = some (value n) := by
  rw [given?, byPosition?, limit_ofPassing, if_pos (List.getElem?_eq_some_iff.mp hi).1]
  show ((first.map value)[i]?).or (Table.get? (named.map fun n => (n, value n)) n) = some (value n)
  by_cases hfirst : i < first.length
  · rw [List.getElem?_append_left hfirst] at hi
    rw [List.getElem?_map, hi]
    rfl
  · rw [List.getElem?_append_right (by omega)] at hi
    rw [List.getElem?_eq_none (by simpa using hfirst), Option.none_or]
    exact get?_named (hothers.mem_iff.mpr (List.mem_of_getElem? hi))

include hnames

/-- Nothing is wrong with a call that covers the parameters. -/
theorem fits_ofPassing : (ofPassing first others named value).Fits := by
  have hkeyword {j : Nat} {name : String} {v : Value}
      (h : (named.map fun n => (n, value n))[j]? = some (name, v)) : named[j]? = some name := by
    rw [List.getElem?_map, Option.map_eq_some_iff] at h
    obtain ⟨n, hn, heq⟩ := h
    cases heq
    exact hn
  have hdisjoint : (first ++ named).Nodup :=
    ((List.perm_append_left_iff first).mpr hothers).nodup_iff.mpr hnames
  obtain ⟨-, hnamed, hapart⟩ := List.nodup_append.mp hdisjoint
  refine ⟨?_, ?_, ?_, ?_⟩
  · rintro j name ⟨v, i, p, hv, hp, rfl, hfilled⟩
    have hj := hkeyword hv
    rw [params_ofPassing, List.getElem?_map, Option.map_eq_some_iff] at hp
    obtain ⟨n, hn, rfl⟩ := hp
    rcases hfilled with ⟨-, hi⟩ | hearlier
    · -- its position would be one of the first
      have hi : i < first.length := List.length_map (f := value) ▸ hi
      rw [List.getElem?_append_left hi] at hn
      exact hapart n (List.mem_of_getElem? hn) n (List.mem_of_getElem? hj) rfl
    · obtain ⟨k, hk⟩ := List.mem_iff_getElem?.mp hearlier
      have hkj : k < j := by
        have hlt := (List.getElem?_eq_some_iff.mp hk).1
        simp only [List.length_map, List.length_take] at hlt
        omega
      rw [List.getElem?_map, List.getElem?_take_of_lt hkj, Option.map_eq_some_iff] at hk
      obtain ⟨⟨m, w⟩, hk, rfl⟩ := hk
      have hjlt := (List.getElem?_eq_some_iff.mp hj).1
      exact List.nodup_iff_getElem?_ne_getElem?.mp hnamed k j hkj hjlt
        ((hkeyword hk).trans hj.symm)
  · rintro i name ⟨p, hp, rfl, hlacks⟩
    rw [params_ofPassing, List.getElem?_map, Option.map_eq_some_iff] at hp
    obtain ⟨n, hn, rfl⟩ := hp
    rw [given?_ofPassing hothers hn] at hlacks
    cases hlacks
  · rintro ⟨hover, -⟩
    rw [limit_ofPassing, List.length_append] at hover
    have hlength : (ofPassing first others named value).args.length = first.length :=
      List.length_map _
    omega
  · rintro j name ⟨⟨v, hv⟩, hstray, -⟩
    rw [params_ofPassing, List.map_map] at hstray
    refine hstray (List.mem_map.mpr ⟨name, ?_, rfl⟩)
    exact List.mem_append_right _ (hothers.mem_iff.mp (List.mem_of_getElem? (hkeyword hv)))

/-- Binding puts each value under the name of its parameter. -/
theorem bind_passing (value : String → Value) (callee : String) :
    ∃ b, (Signature.ofNames (first ++ others)).bind callee (first.map value)
        (named.map fun n => (n, value n)) = .ok b ∧
      b.named = (first ++ others).map fun n => (n, value n) := by
  have hdistinct : (ofPassing first others named value).Distinct := by
    rw [Distinct, params_ofPassing, List.map_map]
    simpa [Function.comp_def] using hnames
  obtain ⟨hok, hanswered⟩ := Signature.bind_declared _ callee _ _ hdistinct
  obtain ⟨b, hb⟩ := hok.mpr (fits_ofPassing hnames hothers)
  rw [hb] at hanswered
  have hcarried : (ofPassing first others named value).Carried b := hanswered.carried
  rw [Signature.ofNames_eq_declared]
  refine ⟨b, hb, ?_⟩
  have hvalues : b.values = (first ++ others).map value := by
    apply List.ext_getElem?
    intro i
    rw [List.getElem?_map]
    cases hi : (first ++ others)[i]? with
    | none =>
      rw [List.getElem?_eq_none_iff] at hi
      refine List.getElem?_eq_none ?_
      rw [hcarried.length, params_ofPassing, List.length_map]
      exact hi
    | some n =>
      have hp : (ofPassing first others named value).params[i]? = some ⟨n, none⟩ := by
        rw [params_ofPassing, List.getElem?_map, hi]
        rfl
      rw [hcarried.values i _ hp, given?_ofPassing hothers hi]
      rfl
  have hparams : b.signature.params.map (·.name) = first ++ others := by
    rw [Signature.signature_of_bind hb]
    have hdeclared := Signature.call_declared ((first ++ others).map .required) (first.map value)
      (named.map fun n => (n, value n))
    have hsame := congrArg (fun c : Call => c.params.map (·.name)) hdeclared
    refine hsame.trans ?_
    show (ofPassing first others named value).params.map (·.name) = _
    rw [params_ofPassing, List.map_map]
    simp [Function.comp_def]
  rw [Bound.named, hvalues, hparams, List.zip_eq_zipWith, List.zipWith_map_right,
    List.zipWith_self]

end Bound

end Call

/-! ## Applications -/

namespace Expr

variable {host : Host} {c there : Context} {home site : Identity} {params : List String}
  {body callee : Expr} {given : List Passing} {value : String → Value}

/-- Under a bound, a call of a lambda is its body under the bound below. -/
theorem evalWithin_application (hparams : params.Nodup) (hgiven : Passing.Covers given params)
    {depth : Nat}
    (hcallee : callee.evalWithin host (depth + 1) there (site.operand 0) =
      .ok (.lambda home params body c))
    (hargs : ∀ (i : Nat) (p : Passing), given[i]? = some p →
      p.argument.evalWithin host (depth + 1) there (site.operand (i + 1)) = .ok (value p.name)) :
    (call callee (given.map Passing.expr)).evalWithin host (depth + 1) there site =
      body.evalWithin host depth (Table.overlay c (params.map fun n => (n, value n)))
        (site.child 0) := by
  obtain ⟨others, rfl, hothers⟩ := hgiven.split
  obtain ⟨b, hb, hnamed⟩ := Call.bind_passing hparams hothers value "<lambda>"
  rw [evalWithin] at hcallee
  rw [evalWithin, evalWith, hcallee, ok_bind, evalArgs_passing fun i p hp => ?_, ok_bind]
  · dsimp only
    rw [Value.callWith, hb, ok_bind, hnamed]
  · rw [Nat.add_comm 1 i]
    exact hargs i p hp

/-- The outcomes of finitely many expressions are there under one bound. -/
theorem eventually_settled
    (hargs : ∀ (i : Nat) (p : Passing), given[i]? = some p →
      p.argument.Settles host there (site.operand (i + 1)) (.ok (value p.name))) :
    ∀ᶠ depth in Filter.atTop, ∀ (i : Nat) (p : Passing), given[i]? = some p →
      p.argument.evalWithin host depth there (site.operand (i + 1)) = .ok (value p.name) := by
  have hall : ∀ᶠ depth in Filter.atTop, ∀ i ∈ Finset.range given.length, ∀ p : Passing,
      given[i]? = some p →
        p.argument.evalWithin host depth there (site.operand (i + 1)) = .ok (value p.name) := by
    refine (Filter.eventually_all_finset _).mpr fun i hi => ?_
    have hp := List.getElem?_eq_getElem (Finset.mem_range.mp hi)
    filter_upwards [Filter.eventually_atTop.mpr (hargs i _ hp).eventually] with depth h p hp'
    rw [hp] at hp'
    cases hp'
    exact h
  filter_upwards [hall] with depth h i p hp
  exact h i (Finset.mem_range.mpr (List.getElem?_eq_some_iff.mp hp).1) p hp

/-- The value of a lambda keeps the context in which the lambda was written. -/
theorem settles_lambda {f : Value} (h : (lambda params body).Settles host c home (.ok f)) :
    f = .lambda home params body c := by
  obtain ⟨-, depth, hdepth⟩ := h
  cases depth with
  | zero => cases hdepth
  | succ depth =>
    rw [evalWithin, evalWith] at hdepth
    exact (Except.ok.inj hdepth).symm

/-- A lambda that is written in one context and called from any context, on arguments that have
values there, some first ones given by position and the others by name, has the outcome of its
body in the context in which it was written, extended by the values of the arguments under the
names of their parameters. It has this outcome whatever the bound on lambda bodies inside each
other is, and under each bound it has that of the body under the bound below. -/
theorem application_substitutes {f : Value} (value : String → Value) (hparams : params.Nodup)
    (hgiven : Passing.Covers given params)
    (hmade : (lambda params body).Settles host c home (.ok f)) :
    (callee.Settles host there (site.operand 0) (.ok f) →
      (∀ (i : Nat) (p : Passing), given[i]? = some p →
        p.argument.Settles host there (site.operand (i + 1)) (.ok (value p.name))) →
      ∀ o, (call callee (given.map Passing.expr)).Settles host there site o ↔
        body.Settles host (Table.overlay c (params.map fun n => (n, value n))) (site.child 0) o) ∧
    ∀ depth, callee.evalWithin host (depth + 1) there (site.operand 0) = .ok f →
      (∀ (i : Nat) (p : Passing), given[i]? = some p →
        p.argument.evalWithin host (depth + 1) there (site.operand (i + 1)) =
          .ok (value p.name)) →
      (call callee (given.map Passing.expr)).evalWithin host (depth + 1) there site =
        body.evalWithin host depth (Table.overlay c (params.map fun n => (n, value n)))
          (site.child 0) := by
  obtain rfl := settles_lambda hmade
  refine ⟨fun hcallee hargs o => ?_, fun depth hcallee hargs =>
    evalWithin_application hparams hgiven hcallee hargs⟩
  -- from some bound on, callee and arguments have their values, and the bounded equation holds
  obtain ⟨least, hleast⟩ := Filter.eventually_atTop.mp
    ((Filter.eventually_atTop.mpr hcallee.eventually).and (eventually_settled hargs))
  have hcall (depth : Nat) (h : least ≤ depth) := evalWithin_application hparams hgiven
    (hleast (depth + 1) (by omega)).1 (hleast (depth + 1) (by omega)).2
  constructor
  · intro h
    obtain ⟨enough, henough⟩ := h.eventually
    refine ⟨h.1, max least enough, ?_⟩
    rw [← hcall _ (le_max_left _ _)]
    exact henough _ (by omega)
  · intro h
    obtain ⟨enough, henough⟩ := h.eventually
    refine ⟨h.1, max least enough + 1, ?_⟩
    rw [hcall _ (le_max_left _ _)]
    exact henough _ (le_max_right _ _)

/-- The body of a lambda with the parameters `y`, `x` and `len`: it reads `z` where it was written,
and a lambda inside it hides `x` and keeps `y`. -/
def nestedBody : Expr :=
  .binary .add (.call (.lambda ["x"] (.binary .add (.name "x") (.name "y"))) [.name "len"])
    (.binary .add (.name "x") (.name "z"))

/-- The lambda, written where `z` is `"home"`. -/
def nestedLambda : Value :=
  .lambda .origin ["y", "x", "len"] nestedBody [("z", .str "home")]

def awayContext : Context :=
  [("f", nestedLambda), ("z", .str "away")]

/-- One argument by position, and two by name in exchanged order. -/
def exchanged : List Passing :=
  [⟨"y", .str "1" false, false⟩, ⟨"len", .str "2" false, true⟩, ⟨"x", .name "z", true⟩]

def exchangedValue : String → Value
  | "y" => .str "1"
  | "len" => .str "2"
  | _ => .str "away"

theorem application_substitutes_nested :
    ["y", "x", "len"].Nodup ∧ Passing.Covers exchanged ["y", "x", "len"] ∧
      (call (name "f") (exchanged.map Passing.expr)).Settles .idle awayContext .origin
        (.ok (.str "21awayhome")) := by
  have hcovers : Passing.Covers exchanged ["y", "x", "len"] := ⟨by decide, by decide⟩
  have hmade : (lambda ["y", "x", "len"] nestedBody).Settles .idle [("z", .str "home")] .origin
      (.ok nestedLambda) := ⟨by simp, 1, rfl⟩
  refine ⟨by decide, hcovers, ?_⟩
  refine ((application_substitutes exchangedValue (by decide) hcovers hmade).1
    ⟨by simp, 1, rfl⟩ ?_ _).mpr ⟨by simp, 2, by with_unfolding_all rfl⟩
  intro i p hp
  match i with
  | 0 | 1 | 2 =>
    cases hp
    exact ⟨by simp, 1, by with_unfolding_all rfl⟩
  | i + 3 => cases hp

end Expr

end FilterLang
