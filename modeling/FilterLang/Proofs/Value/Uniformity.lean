import FilterLang.Proofs.Value.Agreement
/-!
Items, attributes and operators of values that agree.

What these operations give back are values again: items of containers, fields and bound
methods, sums and repetitions. On pruned operands they give values that agree with what
they give on the operands themselves. An operator is a series of questions, the first
answer counting, so it is enough that the answers agree one by one.
-/

namespace FilterLang

open Fallible

namespace Value

variable {host : Host}

/-! ## Members and items -/

theorem contains_prune (hhost : host.Uniform) (site : Identity) (v item : Value) :
    v.prune.contains host site item.prune = v.contains host site item := by
  have htruthy := isTruthy_prune hhost site
  cases v with
  | str s => cases item <;> rfl
  | tuple id items | list id items =>
    simp only [prune, contains, pruneItems_eq_map, anyEqual_prune hhost]
  | nativeList id items =>
    have hany := anyEqual_prune hhost site item (ofItems site items)
    rw [map_prune_ofItems] at hany
    exact hany
  | dict id d =>
    simp only [prune_dict, contains, Dict.containsKey, hashKey_prune hhost]
    rfl
  | nativeDict id members => simp only [prune, contains, text?_prune]
  | object id c fields =>
    exact special_prune hhost site (object id c fields) "__contains__" [item] htruthy _
  | temporal id t =>
    exact special_prune hhost site (temporal id t) "__contains__" [item] htruthy _
  | _ => rfl

theorem pick_prune {α : Type} (sequence : String) (items : List α) (index : Value) :
    pick sequence items index.prune = pick sequence items index := by
  have hplace : place sequence items.length index.prune = place sequence items.length index := by
    rw [place, place, integer?_prune, typeName_prune]
  rw [pick, pick, hplace]

theorem consistent_map_prune (x : Outcome Value) : Consistent (x.map prune) x := by
  cases x with
  | error e => exact .failed e
  | ok v => exact .succeeded v.agrees_prune

theorem getItem_prune (hhost : host.Uniform) (site : Identity) (v k : Value) :
    Consistent (v.prune.getItem host site k.prune) (v.getItem host site k) := by
  cases v with
  | str s | nativeList id items =>
    simp only [prune, getItem, pick_prune]
    exact .refl _
  | tuple id items | list id items =>
    simp only [prune, getItem, pick_prune, pruneItems_eq_map, pick_map]
    exact consistent_map_prune _
  | dict id entries | nativeDict id members =>
    rw [getItem_dict rfl rfl, getItem_dict rfl rfl, lookup_prune hhost, repr_prune hhost,
      typeName_prune]
    cases lookup host site _ k with
    | error e => exact .failed e
    | ok found =>
      cases found with
      | none => exact .refl _
      | some w => exact .succeeded w.agrees_prune
  | object id c fields =>
    exact special_consistent hhost site (object id c fields) "__getitem__" [k] _
  | temporal id t => exact special_consistent hhost site (temporal id t) "__getitem__" [k] _
  | _ => exact .refl _

/-! ## Attributes -/

theorem field?_prune (v : Value) (name : String) :
    FoundAlike (v.prune.field? name) (v.field? name) := by
  cases v with
  | object id c fields =>
    simp only [prune, field?, get?_pruneNamed]
    exact foundAlike_prune _
  | _ => rfl

theorem fallbackAttr_prune (hhost : host.Uniform) (site : Identity) (v : Value) (name : String) :
    Consistent (v.prune.fallbackAttr host site name) (v.fallbackAttr host site name) := by
  rw [fallbackAttr.eq_def, fallbackAttr.eq_def, classOf_prune, typeName_prune]
  rcases v.classOf.method? host "__getattr__" with _ | m
  · exact .refl _
  · cases m with
    | ofInstance m => exact m.call_prune hhost site v [.str name]
    | dict m =>
      cases m with
      | getattr => cases v <;> exact .refl _
      | _ => exact .refl _
    | str | sequence => exact .refl _

/-- A value that is no class has its fields, its class, the methods of its class, and what
the class falls back to. -/
theorem getAttr_eq {v : Value} (hv : ∀ c, v ≠ cls c) (host : Host) (site : Identity)
    (name : String) :
    v.getAttr host site name =
      answerOr (.ok (v.field? name))
        (if name = "__class__" then .ok (.cls v.classOf)
        else match v.classOf.method? host name with
          | some m => .ok (.method site (if bindsClass host m then .cls v.classOf else v) m)
          | none => fallbackAttr host site v name) := by
  rw [getAttr.eq_def]
  cases v.field? name with
  | some value => rfl
  | none =>
    cases v with
    | cls c => exact absurd rfl (hv c)
    | _ => rfl

theorem getAttr_prune (hhost : host.Uniform) (site : Identity) (v : Value) (name : String) :
    Consistent (v.prune.getAttr host site name) (v.getAttr host site name) := by
  by_cases hv : ∃ c, v = cls c
  · obtain ⟨c, rfl⟩ := hv
    exact .refl _
  · have hne : ∀ c, v ≠ cls c := fun c h => hv ⟨c, h⟩
    have hne' : ∀ c, v.prune ≠ cls c := by
      intro c h
      cases v with
      | cls c' => exact hne c h
      | _ => cases h
    rw [getAttr_eq hne, getAttr_eq hne', classOf_prune]
    refine consistent_answerOr (.succeeded (field?_prune v name)) ?_
    by_cases hclass : name = "__class__"
    · rw [if_pos hclass, if_pos hclass]
      exact .refl _
    · rw [if_neg hclass, if_neg hclass]
      cases v.classOf.method? host name with
      | none => exact fallbackAttr_prune hhost site v name
      | some m =>
        refine .succeeded ?_
        -- a method is bound to the class, which is its own pruned form, or to the value
        by_cases hbinds : bindsClass host m = true
        · simp only [if_pos hbinds]
          rfl
        · simp only [if_neg hbinds, Agrees, prune, prune_prune]

/-! ## Operators -/

theorem map_prune_repeatItems (items : List Value) (n : Nat) :
    (repeatItems items n).map prune = repeatItems (items.map prune) n := by
  rw [repeatItems, repeatItems, List.map_flatten, List.map_replicate]

theorem repeated_prune (site : Identity) (v : Value) (count : Float) :
    Consistent (repeated site v.prune count) (repeated site v count) := by
  rw [repeated.eq_def, repeated.eq_def]
  cases Number.integral? count with
  | none => exact .refl _
  | some n =>
    cases v with
    | tuple id items =>
      refine .succeeded ?_
      simp only [prune, Agrees, pruneItems_eq_map, map_prune_repeatItems, map_prune_prune]
    | list id items =>
      refine .succeeded ?_
      simp only [prune, Agrees, listItems?, Option.getD_some, pruneItems_eq_map,
        map_prune_repeatItems, map_prune_prune]
    | _ => exact .refl _

/-- Whether a value has an operator by its kind. -/
def isOperand : Value → Bool
  | bool _ | float _ | str _ | tuple .. | list .. | nativeList .. => true
  | _ => false

theorem nativeArith_left {a : Value} (h : a.isOperand = false) (site : Identity) (op : BinaryOp)
    (b : Value) : nativeArith site op a b = .ok none := by
  cases a <;> cases h <;> cases op <;> first | rfl | (cases b <;> rfl)

theorem nativeArith_right {b : Value} (h : b.isOperand = false) (site : Identity) (op : BinaryOp)
    (a : Value) : nativeArith site op a b = .ok none := by
  cases b <;> cases h <;> cases op <;> cases a <;> rfl

@[simp] theorem isOperand_prune (v : Value) : v.prune.isOperand = v.isOperand := by
  cases v <;> rfl

@[simp] theorem isContainer_prune (v : Value) : v.prune.isContainer = v.isContainer := by
  cases v <;> rfl

theorem either_isContainer_prune {a b : Value} (h : a.isContainer = true ∨ b.isContainer = true) :
    a.prune.isContainer = true ∨ b.prune.isContainer = true := by
  rwa [isContainer_prune, isContainer_prune]

theorem consistent_some {x y : Outcome Value} (h : Consistent x y) :
    Related FoundAlike (x.map some) (y.map some) := by
  cases h with
  | failed e => exact .failed e
  | succeeded h => exact .succeeded (congrArg some h)

theorem nativeArith_add_prune {site : Identity} {a b : Value}
    (h : a.isContainer = true ∨ b.isContainer = true) :
    Related FoundAlike (nativeArith site .add a.prune b.prune) (nativeArith site .add a b) := by
  have hprune := either_isContainer_prune h
  by_cases ha : ∃ id items, a = .tuple id items
  · obtain ⟨id, xs, rfl⟩ := ha
    cases b with
    | tuple id' ys =>
      refine .succeeded ?_
      simp only [FoundAlike, Option.map_some, prune, pruneItems_eq_map, List.map_append,
        map_prune_prune]
    | _ => exact .succeeded rfl
  · have hne : ∀ id items, a ≠ .tuple id items := fun id items heq => ha ⟨id, items, heq⟩
    have hne' : ∀ id items, a.prune ≠ .tuple id items := by
      intro id items heq
      cases a with
      | tuple id' items' => exact hne id' items' rfl
      | _ => cases heq
    rw [nativeArith_add h hne, nativeArith_add hprune hne', listItems?_prune, listItems?_prune]
    cases a.listItems? (site.child 0) with
    | none => exact .succeeded rfl
    | some xs =>
      cases b.listItems? (site.child 1) with
      | none => exact .succeeded rfl
      | some ys =>
        refine .succeeded ?_
        simp only [FoundAlike, Option.map_some, prune, pruneItems_eq_map, List.map_append,
          map_prune_prune]

/-- A repetition of a sequence, if it is one. -/
theorem repetition_prune (site : Identity) (v : Value) (count : Float) :
    Related FoundAlike
      (if v.prune.isSequence then (repeated site v.prune count).map some else .ok none)
      (if v.isSequence then (repeated site v count).map some else .ok none) := by
  rw [isSequence_prune]
  by_cases hv : v.isSequence = true
  · rw [if_pos hv, if_pos hv]
    exact consistent_some (repeated_prune site v count)
  · rw [if_neg hv, if_neg hv]
    exact .succeeded rfl

theorem nativeArith_prune (site : Identity) (op : BinaryOp) (a b : Value) :
    Related FoundAlike (nativeArith site op a.prune b.prune) (nativeArith site op a b) := by
  have hrefl : ∀ x : Outcome (Option Value), Related FoundAlike x x :=
    Related.refl (R := FoundAlike) fun _ => rfl
  by_cases hc : a.isContainer = true ∨ b.isContainer = true
  · -- of the operators only sums and repetitions take containers
    have hprune := either_isContainer_prune hc
    by_cases hadd : op = .add
    · subst hadd
      exact nativeArith_add_prune hc
    by_cases hmul : op = .mul
    · subst hmul
      rw [nativeArith_mul hc, nativeArith_mul hprune]
      cases b with
      | float n => exact repetition_prune site a n.float
      | _ => exact .succeeded rfl
    rw [nativeArith_container hc hadd hmul, nativeArith_container hprune hadd hmul]
    exact .succeeded rfl
  -- an operand that is no container is its own pruned form
  rw [not_or, Bool.not_eq_true, Bool.not_eq_true] at hc
  cases ha : a.isOperand with
  | false =>
    rw [nativeArith_left ha, nativeArith_left ((isOperand_prune a).trans ha)]
    exact hrefl _
  | true =>
    cases hb : b.isOperand with
    | false =>
      rw [nativeArith_right hb, nativeArith_right ((isOperand_prune b).trans hb)]
      exact hrefl _
    | true =>
      have hself : ∀ v : Value, v.isContainer = false → v.isOperand = true → v.prune = v := by
        intro v hv ho
        cases v with
        | bool | float | str => rfl
        | tuple | list | nativeList => cases hv
        | _ => cases ho
      rw [hself a hc.1 ha, hself b hc.2 hb]
      exact hrefl _

theorem nativeReflected_prune (site : Identity) (op : BinaryOp) (a b : Value) :
    Related FoundAlike (nativeReflected site op a.prune b.prune) (nativeReflected site op a b) := by
  rw [nativeReflected.eq_def, nativeReflected.eq_def]
  cases op with
  | mul =>
    cases a with
    | float n => exact repetition_prune site b n.float
    | _ => exact .succeeded rfl
  | _ => exact .succeeded rfl

theorem binary_prune (hhost : host.Uniform) (site : Identity) (op : BinaryOp) (a b : Value) :
    Consistent (binary host site op a.prune b.prune) (binary host site op a b) := by
  rw [binary_eq, binary_eq, typeName_prune, typeName_prune]
  exact consistent_answerOr (nativeArith_prune site op a b)
    (consistent_answerOr (askOperator_prune hhost site a _ b)
      (consistent_answerOr (nativeReflected_prune site op a b)
        (consistent_answerOr (askOperator_prune hhost site b _ a) (.failed _))))

theorem unaryByMethod_prune (hhost : host.Uniform) (site : Identity) (name symbol : String)
    (v : Value) :
    Consistent (unaryByMethod host site name symbol v.prune)
      (unaryByMethod host site name symbol v) := by
  rw [unaryByMethod, typeName_prune]
  exact special_consistent hhost site v name [] _

theorem unary_prune (hhost : host.Uniform) (site : Identity) (op : UnaryOp) (v : Value) :
    Consistent (unary host site op v.prune) (unary host site op v) := by
  have hmethod := unaryByMethod_prune hhost site
  cases op with
  | negate =>
    cases v with
    | object id c fields => exact hmethod "__neg__" "-" (object id c fields)
    | _ => exact .refl _
  | plus =>
    cases v with
    | object id c fields => exact hmethod "__pos__" "+" (object id c fields)
    | _ => exact .refl _
  | invert =>
    rw [unary, unary, integer?_prune]
    cases v.integer? with
    | none => exact hmethod "__invert__" "~" v
    | some n => exact .refl _

end Value

end FilterLang
