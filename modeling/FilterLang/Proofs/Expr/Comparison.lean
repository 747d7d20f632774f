import FilterLang.Expr.Eval
import FilterLang.Proofs.Fallible
/-!
A chain of comparisons as two lists, its operands and its operators.

As a tree the chain is its first operand and a list of links. Kept as two lists it can go wrong:
an operand can lack the operator before it, and then the display reads past the operators, or an
operator or operand is left over, and then the links that are evaluated lack it. None of this
happens to two lists that are `Paired`, one operand more than there are operators and at least one
of them. On the two lists of a tree the display with its look-ups, and the evaluation with an
outcome of any kind for a chain without operands and for an operator that is no rich comparison,
are those of the tree.
-/

namespace FilterLang

open Fallible

/-- The operands and the operators of a chain of comparisons. -/
structure Comparison where
  operands : List Expr
  operators : List CompareOp

/-- The two lists of a chain of comparisons. -/
def Expr.comparison? : Expr → Option Comparison
  | compare first links => some ⟨first :: links.map (·.2), links.map (·.1)⟩
  | _ => none

/-- Whether one comparison of a chain holds, `notRich` being the outcome of an operator that is
none of the four by identity and containment and no rich comparison either. -/
def CompareOp.holdsOr (notRich : CompareOp → Outcome Value) (host : Host) (site : Identity)
    (op : CompareOp) (left right : Value) : Outcome Bool :=
  match op with
  | same => .ok (left.identical right)
  | notSame => .ok (!left.identical right)
  | isIn => right.contains host site left
  | notIn => do return !(← right.contains host site left)
  | op => do
    let answer ← match op.relation? with
      | some r => left.compareWith host site r right
      | none => notRich op
    answer.isTruthy host site

/-- The operators with relations are those that are not by identity or containment. -/
theorem CompareOp.holdsOr_eq (notRich : CompareOp → Outcome Value) (host : Host)
    (site : Identity) (op : CompareOp) (left right : Value) :
    op.holdsOr notRich host site left right = op.holds host site left right := by
  cases op <;> rfl

namespace Comparison

variable {v : Comparison}

/-! ## Pushes -/

/-- The lists with one more operator at the end. -/
def pushOperator (v : Comparison) (op : CompareOp) : Comparison :=
  { v with operators := v.operators ++ [op] }

/-- The lists with one more operand at the end. -/
def pushOperand (v : Comparison) (e : Expr) : Comparison :=
  { v with operands := v.operands ++ [e] }

/-- The lists after an operator and then an operand are pushed for every link. -/
def pushed (v : Comparison) (links : List (CompareOp × Expr)) : Comparison :=
  links.foldl (fun v l => (v.pushOperator l.1).pushOperand l.2) v

theorem pushed_cons (v : Comparison) (l : CompareOp × Expr) (links : List (CompareOp × Expr)) :
    v.pushed (l :: links) = ((v.pushOperator l.1).pushOperand l.2).pushed links := rfl

theorem pushed_eq (v : Comparison) (links : List (CompareOp × Expr)) :
    v.pushed links = ⟨v.operands ++ links.map (·.2), v.operators ++ links.map (·.1)⟩ := by
  induction links generalizing v with
  | nil =>
    rw [List.map_nil, List.map_nil, List.append_nil, List.append_nil]
    rfl
  | cons l links ih =>
    rw [pushed_cons, ih]
    simp [pushOperator, pushOperand]

/-! ## Paired lists -/

/-- There is an operator, and there is one operand more than there are operators. -/
structure Paired (v : Comparison) : Prop where
  operators_ne_nil : v.operators ≠ []
  length_operands : v.operands.length = v.operators.length + 1

theorem paired_two (left right : Expr) (op : CompareOp) : Paired ⟨[left, right], [op]⟩ :=
  ⟨List.cons_ne_nil _ _, rfl⟩

/-- After the push of an operator there are as many operands as operators, and the push of an
operand makes them one more again. -/
theorem Paired.push (h : v.Paired) (op : CompareOp) (e : Expr) :
    ((v.pushOperator op).pushOperand e).Paired := by
  have hbetween : (v.pushOperator op).operands.length = (v.pushOperator op).operators.length := by
    simp [pushOperator, h.length_operands]
  constructor
  · simp [pushOperator, pushOperand]
  · calc ((v.pushOperator op).pushOperand e).operands.length
        = (v.pushOperator op).operands.length + 1 := by simp [pushOperand]
      _ = ((v.pushOperator op).pushOperand e).operators.length + 1 := by
          rw [hbetween]
          rfl

theorem Paired.pushed (h : v.Paired) (links : List (CompareOp × Expr)) :
    (v.pushed links).Paired := by
  induction links generalizing v with
  | nil => exact h
  | cons l links ih => exact ih (h.push l.1 l.2)

/-- The place before that of an operand which is not the first is that of an operator. -/
theorem Paired.place_lt (h : v.Paired) {i : Nat} (hi : 0 < i) (hlt : i < v.operands.length) :
    i - 1 < v.operators.length := by
  have := h.length_operands
  omega

/-! ## Links -/

/-- The links that are evaluated: each operator with the operand at its place after the first.
What is left over of the longer list is dropped. -/
def links (v : Comparison) : List (CompareOp × Expr) :=
  v.operators.zip v.operands.tail

theorem Paired.length_tail (h : v.Paired) : v.operands.tail.length = v.operators.length := by
  rw [List.length_tail, h.length_operands, Nat.add_sub_cancel]

/-- Of paired lists every operator is in a link. -/
theorem Paired.links_operators (h : v.Paired) : v.links.map (·.1) = v.operators :=
  List.map_fst_zip (Nat.le_of_eq h.length_tail.symm)

/-- Of paired lists every operand after the first is in a link. -/
theorem Paired.links_operands (h : v.Paired) : v.links.map (·.2) = v.operands.tail :=
  List.map_snd_zip (Nat.le_of_eq h.length_tail)

/-- The links of a tree are those of its two lists. -/
theorem links_tree (first : Expr) (links : List (CompareOp × Expr)) :
    Comparison.links ⟨first :: links.map (·.2), links.map (·.1)⟩ = links := by
  rw [Comparison.links, List.tail_cons, List.zip_map', List.map_id']

/-! ## Display -/

/-- The display of operands that stand from the place `i` on. Before each but the first is the
operator at the place before it, which is looked up. -/
def displayFrom? (operators : List CompareOp) (i : Nat) : List Expr → Option String
  | [] => some ""
  | e :: rest => do
    let op ← if i = 0 then some "" else (operators[i - 1]?).map fun op => " " ++ op.text
    let more ← displayFrom? operators (i + 1) rest
    return op ++ " " ++ e.display ++ more

/-- The display of the two lists, unless an operator is not where it is looked up. -/
def display? (v : Comparison) : Option String :=
  (displayFrom? v.operators 0 v.operands).map fun s => "(comparator" ++ s ++ ")"

/-- Behind the first operand, and the operands of the links before, the links are displayed. -/
theorem displayFrom?_links (before : List CompareOp) (links : List (CompareOp × Expr)) :
    displayFrom? (before ++ links.map (·.1)) (before.length + 1) (links.map (·.2)) =
      some (Expr.displayLinks links) := by
  -- the operator of the first link is the one at the place that the operators before it end at
  induction links generalizing before with
  | nil => rw [Expr.displayLinks]; rfl
  | cons l links ih =>
    obtain ⟨op, e⟩ := l
    have hop : (before ++ op :: links.map (·.1))[before.length]? = some op := by simp
    have hrest := ih (before ++ [op])
    rw [List.append_assoc, List.singleton_append, List.length_append, List.length_singleton]
      at hrest
    rw [List.map_cons, List.map_cons, displayFrom?, if_neg (Nat.succ_ne_zero _),
      Nat.add_sub_cancel, hop, hrest, Expr.displayLinks, Expr.displayLink]
    rfl

theorem display?_tree (first : Expr) (links : List (CompareOp × Expr)) :
    display? ⟨first :: links.map (·.2), links.map (·.1)⟩ =
      some (Expr.compare first links).display := by
  have hrest := displayFrom?_links [] links
  rw [List.nil_append, List.length_nil] at hrest
  rw [display?, displayFrom?, hrest, Expr.display]
  simp only [if_true, Option.bind_eq_bind, Option.bind_some, Option.pure_def, Option.map_some,
    Option.some.injEq, String.empty_append, ← String.append_assoc]
  rfl

/-- The display finds every operator of a tree, and is that of the tree. -/
theorem display?_of_comparison? {node : Expr} (h : node.comparison? = some v) :
    v.display? = some node.display := by
  cases node with
  | compare first links =>
    cases h
    exact display?_tree first links
  | _ => cases h

/-! ## Evaluation -/

section Evaluation

variable (empty : Outcome Value) (notRich : CompareOp → Outcome Value) (host : Host)
  (call : Expr.Caller) (c : Context)

/-- Whether the comparisons of all links hold. The first that does not ends it. -/
def evalLinksOr (site : Identity) (left : Value) : List (CompareOp × Expr) → Outcome Bool
  | [] => .ok true
  | (op, e) :: rest => do
    let right ← e.evalWith host call c ((site.link rest).operand 1)
    if ← op.holdsOr notRich host (site.link rest) left right then
      evalLinksOr (site.operand 1) right rest
    else return false

/-- The value of a chain of comparisons from its two lists. -/
def evalOr (site : Identity) (v : Comparison) : Outcome Value :=
  match v.operands with
  | [] => empty
  | first :: _ => do
    let left ← first.evalWith host call c ((site.link v.links.tail).operand 0)
    return .bool (← evalLinksOr notRich host call c site left v.links)

theorem evalLinksOr_eq (site : Identity) (left : Value) (links : List (CompareOp × Expr)) :
    evalLinksOr notRich host call c site left links =
      Expr.evalLinks host call c site left links := by
  induction links generalizing site left with
  | nil => rw [evalLinksOr, Expr.evalLinks]
  | cons l rest ih =>
    obtain ⟨op, e⟩ := l
    rw [evalLinksOr, Expr.evalLinks, Expr.evalLink]
    refine bind_congr_ok fun right _ => ?_
    rw [CompareOp.holdsOr_eq]
    refine bind_congr_ok fun b _ => ?_
    rw [ih]

theorem evalOr_tree (site : Identity) (first : Expr) (links : List (CompareOp × Expr)) :
    evalOr empty notRich host call c site ⟨first :: links.map (·.2), links.map (·.1)⟩ =
      (Expr.compare first links).evalWith host call c site := by
  rw [evalOr, links_tree, Expr.evalWith]
  refine bind_congr_ok fun left _ => ?_
  rw [evalLinksOr_eq]

theorem evalOr_of_comparison? (site : Identity) {node : Expr} (h : node.comparison? = some v) :
    v.evalOr empty notRich host call c site = node.evalWith host call c site := by
  cases node with
  | compare first links =>
    cases h
    exact evalOr_tree empty notRich host call c site first links
  | _ => cases h

end Evaluation

end Comparison

end FilterLang
