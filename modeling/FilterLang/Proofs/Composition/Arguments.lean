import FilterLang.Composition.Argument
import FilterLang.Proofs.Value.Literal
/-!
Arguments are evaluated in place, up to the first that fails.

The positional and the named arguments of a call are worked through as one list
(`all_evaluate`). In that list every argument before the first failure is replaced by what it
stands for, and that one and all after it stay what they were (`getElem?_evalEach`). So nothing
is moved between the two, and what an argument becomes is told by the argument alone.
-/

namespace FilterLang.Composition

open Fallible

/-! ## Documents one after the other -/

/-- How many documents stand before the first that cannot be evaluated; all of them, if there is
none. -/
def evaluable (host : Host) (docs : List Json) : Nat :=
  docs.findIdx fun arg => !(evalArgument host arg).isOk

theorem evaluable_cons_ok {host : Host} {arg v : Json} (h : evalArgument host arg = .ok v)
    (rest : List Json) : evaluable host (arg :: rest) = evaluable host rest + 1 := by
  rw [evaluable, List.findIdx_cons, h]
  rfl

theorem evaluable_cons_error {host : Host} {arg : Json} {e : EvalError}
    (h : evalArgument host arg = .error e) (rest : List Json) :
    evaluable host (arg :: rest) = 0 := by
  rw [evaluable, List.findIdx_cons, h]
  rfl

theorem evalEach_cons_ok {host : Host} {arg v : Json} (h : evalArgument host arg = .ok v)
    (rest : List Json) :
    evalEach host (arg :: rest) = (v :: (evalEach host rest).1, (evalEach host rest).2) := by
  rw [evalEach, h]

theorem evalEach_cons_error {host : Host} {arg : Json} {e : EvalError}
    (h : evalArgument host arg = .error e) (rest : List Json) :
    evalEach host (arg :: rest) = (arg :: rest, some e) := by
  rw [evalEach, h]

theorem length_evalEach (host : Host) (docs : List Json) :
    (evalEach host docs).1.length = docs.length := by
  induction docs with
  | nil => rfl
  | cons arg rest ih =>
    cases h : evalArgument host arg with
    | error e => rw [evalEach_cons_error h]
    | ok v => rw [evalEach_cons_ok h, List.length_cons, List.length_cons, ih]

/-- What the documents are afterwards: those before the first failure are what they stand for,
the others what they were. -/
theorem getElem?_evalEach (host : Host) (docs : List Json) (i : Nat) :
    (i < evaluable host docs → ∀ arg, docs[i]? = some arg →
      ∃ v, evalArgument host arg = .ok v ∧ (evalEach host docs).1[i]? = some v) ∧
    (evaluable host docs ≤ i → (evalEach host docs).1[i]? = docs[i]?) := by
  induction docs generalizing i with
  | nil => exact ⟨fun h => absurd h (Nat.not_lt_zero i), fun _ => rfl⟩
  | cons first rest ih =>
    cases h : evalArgument host first with
    | error e =>
      rw [evaluable_cons_error h, evalEach_cons_error h]
      exact ⟨fun hi => absurd hi (Nat.not_lt_zero i), fun _ => rfl⟩
    | ok v =>
      rw [evaluable_cons_ok h, evalEach_cons_ok h]
      cases i with
      | zero =>
        refine ⟨fun _ arg harg => ?_, fun hi => absurd hi (Nat.not_succ_le_zero _)⟩
        cases harg
        exact ⟨v, h, rfl⟩
      | succ i =>
        refine ⟨fun hi => ?_, fun hi => ?_⟩
        · exact (ih i).1 (Nat.lt_of_succ_lt_succ hi)
        · exact (ih i).2 (Nat.le_of_succ_le_succ hi)

/-- The failure is that of the first document that cannot be evaluated. -/
theorem failure_evalEach (host : Host) (docs : List Json) (e : EvalError) :
    (evalEach host docs).2 = some e ↔
      ∃ arg, docs[evaluable host docs]? = some arg ∧ evalArgument host arg = .error e := by
  induction docs with
  | nil => simp [evalEach]
  | cons first rest ih =>
    cases h : evalArgument host first with
    | error e' => simp [evaluable_cons_error h, evalEach_cons_error h, h]
    | ok v =>
      rw [evaluable_cons_ok h, evalEach_cons_ok h]
      exact ih

/-- There is no failure when all documents can be evaluated. -/
theorem evalEach_succeeds (host : Host) (docs : List Json) :
    (evalEach host docs).2 = none ↔ evaluable host docs = docs.length := by
  induction docs with
  | nil => simp [evalEach, evaluable]
  | cons first rest ih =>
    cases h : evalArgument host first with
    | error e => simp [evaluable_cons_error h, evalEach_cons_error h]
    | ok v =>
      rw [evaluable_cons_ok h, evalEach_cons_ok h, List.length_cons, Nat.add_right_cancel_iff]
      exact ih

theorem evalEach_append (host : Host) (xs ys : List Json) :
    evalEach host (xs ++ ys) =
      match (evalEach host xs).2 with
      | some e => ((evalEach host xs).1 ++ ys, some e)
      | none => ((evalEach host xs).1 ++ (evalEach host ys).1, (evalEach host ys).2) := by
  induction xs with
  | nil => rfl
  | cons first rest ih =>
    cases h : evalArgument host first with
    | error e =>
      rw [List.cons_append, evalEach_cons_error h, evalEach_cons_error h]
      rfl
    | ok v =>
      rw [List.cons_append, evalEach_cons_ok h, evalEach_cons_ok h, ih]
      cases (evalEach host rest).2 <;> rfl

/-! ## Arguments of a call -/

namespace Arguments

/-- All arguments of a call: the positional ones in order, then the named ones in the order of
their names. -/
def all (args : Arguments) : List Json :=
  args.positional ++ args.named.map (·.2)

/-- The names are left as they are, and so is the number of positional arguments. -/
theorem evaluate_keeps (host : Host) (args : Arguments) :
    (args.evaluate host).1.positional.length = args.positional.length ∧
      Table.names (args.evaluate host).1.named = Table.names args.named := by
  have hpositional := length_evalEach host args.positional
  have hnamed := length_evalEach host (args.named.map (·.2))
  unfold evaluate
  split
  · next positional e heach =>
    rw [heach] at hpositional
    exact ⟨hpositional, rfl⟩
  · next positional heach =>
    rw [heach] at hpositional
    refine ⟨hpositional, ?_⟩
    refine List.map_fst_zip ?_
    rw [hnamed, Table.names, List.length_map, List.length_map]

/-- The arguments of a call are worked through as one list. -/
theorem all_evaluate (host : Host) (args : Arguments) :
    ((args.evaluate host).1.all, (args.evaluate host).2) = evalEach host args.all := by
  have hnamed := length_evalEach host (args.named.map (·.2))
  rw [all, all, evalEach_append]
  unfold evaluate
  split
  · next positional e heach =>
    rw [heach]
  · next positional heach =>
    have hvalues : ((Table.names args.named).zip (evalEach host (args.named.map (·.2))).1).map
        (·.2) = (evalEach host (args.named.map (·.2))).1 := by
      refine List.map_snd_zip ?_
      rw [hnamed, Table.names, List.length_map, List.length_map]
    rw [heach]
    dsimp only
    rw [hvalues]

/-- Arguments are evaluated in place up to the first that fails. With all arguments of the call
in one order, `k` of them before that first one: these hold what they stand for, all others are
as they were, and none is added, dropped or moved. The call fails as the argument after these
`k`, and it succeeds when there is none. What an argument becomes does not depend on the
arguments around it: wherever it is reached, in this call or in another, it becomes the same. -/
theorem evaluate_partway (host : Host) (args : Arguments) :
    let k := evaluable host args.all
    let after := (args.evaluate host).1
    let failure := (args.evaluate host).2
    (after.positional.length = args.positional.length ∧
      Table.names after.named = Table.names args.named) ∧
    (∀ i arg, i < k → args.all[i]? = some arg →
      ∃ v, evalArgument host arg = .ok v ∧ after.all[i]? = some v) ∧
    (∀ i, k ≤ i → after.all[i]? = args.all[i]?) ∧
    (∀ e, failure = some e ↔
      ∃ arg, args.all[k]? = some arg ∧ evalArgument host arg = .error e) ∧
    (failure = none ↔ k = args.all.length) ∧
    ∀ (others : Arguments) (i j : Nat) (arg : Json), args.all[i]? = some arg →
      others.all[j]? = some arg → i < k → j < evaluable host others.all →
        after.all[i]? = (others.evaluate host).1.all[j]? := by
  have hall : ∀ args : Arguments, (args.evaluate host).1.all = (evalEach host args.all).1 :=
    fun args => congrArg Prod.fst (all_evaluate host args)
  have hfailure : (args.evaluate host).2 = (evalEach host args.all).2 :=
    congrArg Prod.snd (all_evaluate host args)
  refine ⟨evaluate_keeps host args, fun i arg hi harg => ?_, fun i hi => ?_, fun e => ?_, ?_, ?_⟩
  · rw [hall]
    exact (getElem?_evalEach host args.all i).1 hi arg harg
  · rw [hall]
    exact (getElem?_evalEach host args.all i).2 hi
  · rw [hfailure]
    exact failure_evalEach host args.all e
  · rw [hfailure]
    exact evalEach_succeeds host args.all
  · intro others i j arg harg hother hi hj
    obtain ⟨v, hv, hgot⟩ := (getElem?_evalEach host args.all i).1 hi arg harg
    obtain ⟨w, hw, hgot'⟩ := (getElem?_evalEach host others.all j).1 hj arg hother
    rw [hall, hall, hgot, hgot']
    exact congrArg some (Except.ok.inj (hv.symm.trans hw))

def oneDomain : Json :=
  .object [("__domains", .array [.array [.int 1]]), ("__ref", .str "compound_domain")]

/-- Two positional arguments, the second a reference that is unknown, and two named ones, the
second the same as the first positional one. -/
def unfinished : Arguments where
  positional := [oneDomain, .object [("__ref", .str "view")]]
  named := [("a", .int 4), ("b", oneDomain)]

/-- Only the first argument is evaluated. Without the unknown reference the last one is, too, and
it becomes the same. -/
theorem evaluate_partway_unfinished :
    evaluable .idle unfinished.all = 1 ∧
      (unfinished.evaluate .idle).1.all[0]? = some (.array [.int 1]) ∧
      (unfinished.evaluate .idle).1.all[3]? = unfinished.all[3]? ∧
      (unfinished.evaluate .idle).2 = some (.value (.unknownReference "view")) ∧
      (unfinished.evaluate .idle).1.all[0]? =
        (({ unfinished with positional := [] } : Arguments).evaluate .idle).1.all[1]? := by
  have hk : evaluable .idle unfinished.all = 1 := rfl
  obtain ⟨_, hdone, hkept, hfailure, _, hsame⟩ := evaluate_partway .idle unfinished
  rw [hk] at hdone hkept hfailure hsame
  obtain ⟨v, hv, hgot⟩ := hdone 0 _ Nat.one_pos rfl
  cases hv
  exact ⟨hk, hgot, hkept 3 (by decide), (hfailure _).mpr ⟨_, rfl, rfl⟩,
    hsame { unfinished with positional := [] } 0 1 _ rfl rfl Nat.one_pos Nat.one_lt_two⟩

end Arguments

end FilterLang.Composition
