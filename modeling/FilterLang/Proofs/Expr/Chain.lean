import FilterLang.Expr.Eval
import FilterLang.Proofs.Fallible
import FilterLang.Proofs.Value.Literal
/-!
A chain of comparisons is the conjunction of its links.

Each operand between two links is written once in a chain and twice in the conjunction, where it
is the right operand of one comparison and the left operand of the next. An operand that has the
same value wherever it stands can be written twice, and then both have the same outcome, value or
error (`evalWith_conjunction`).

For operands of any kind, a chain is false exactly when its links lead to a first one that is
false (`evalLinks_eq_false_iff`). What the links after that one are does not matter.
-/

namespace FilterLang

open Fallible

/-- The place of a link is told by whether others come after it. -/
theorem Identity.link_congr {site : Identity} {xs ys : List (CompareOp × Expr)}
    (h : xs = [] ↔ ys = []) : site.link xs = site.link ys := by
  cases xs with
  | nil => rw [h.mp rfl]
  | cons x xs =>
    cases ys with
    | nil => cases h.mpr rfl
    | cons y ys => rfl

namespace Expr

/-! ## Operands that can be written twice -/

/-- Names and literals: numbers, strings and constants. -/
def isNameOrLiteral : Expr → Bool
  | name _ | number _ | str _ _ | const _ => true
  | _ => false

/-- The comparison of two operands, and of each next operand with the one before it. -/
def conjunction (first : Expr) (l : CompareOp × Expr) : List (CompareOp × Expr) → Expr
  | [] => compare first [l]
  | next :: rest => and (compare first [l]) (conjunction l.2 next rest)

variable {host : Host} {call : Caller} {c : Context}

/-- The value of a name or a literal is the same at every place. -/
theorem evalWith_isNameOrLiteral {e : Expr} (h : e.isNameOrLiteral = true) (site site' : Identity) :
    evalWith host call c site e = evalWith host call c site' e := by
  cases e with
  | name | number | str | const => rw [evalWith, evalWith]
  | _ => cases h

theorem evalWith_compare (site : Identity) (first : Expr) (l : CompareOp × Expr)
    (rest : List (CompareOp × Expr)) :
    evalWith host call c site (compare first (l :: rest)) =
      evalWith host call c ((site.link rest).operand 0) first >>= fun left =>
        evalLinks host call c site left (l :: rest) >>= fun b => .ok (.bool b) := by
  rw [evalWith]
  rfl

/-- A link with others after it has the places of the left part of a conjunction. -/
theorem evalWith_compare_cons (site : Identity) (first : Expr) (op : CompareOp) (e : Expr)
    (next : CompareOp × Expr) (rest : List (CompareOp × Expr)) :
    evalWith host call c site (compare first ((op, e) :: next :: rest)) =
      evalWith host call c ((site.operand 0).operand 0) first >>= fun left =>
        evalWith host call c ((site.operand 0).operand 1) e >>= fun right =>
          op.holds host (site.operand 0) left right >>= fun b =>
            if b then
              evalLinks host call c (site.operand 1) right (next :: rest) >>= fun b =>
                .ok (.bool b)
            else .ok (.bool false) := by
  rw [evalWith_compare]
  refine bind_congr_ok fun left _ => ?_
  rw [evalLinks, evalLink, Identity.link, bind_assoc]
  refine bind_congr_ok fun right _ => ?_
  rw [bind_assoc]
  refine bind_congr_ok fun b _ => ?_
  cases b <;> rfl

/-- A conjunction whose left part is one link. -/
theorem evalWith_and_link (site : Identity) (first : Expr) (op : CompareOp) (e tail : Expr) :
    evalWith host call c site (and (compare first [(op, e)]) tail) =
      evalWith host call c ((site.operand 0).operand 0) first >>= fun left =>
        evalWith host call c ((site.operand 0).operand 1) e >>= fun right =>
          op.holds host (site.operand 0) left right >>= fun b =>
            if b then evalWith host call c (site.operand 1) tail else .ok (.bool false) := by
  rw [evalWith, evalWith_compare, bind_assoc]
  refine bind_congr_ok fun left _ => ?_
  rw [evalLinks, evalLink, Identity.link, bind_assoc, bind_assoc]
  refine bind_congr_ok fun right _ => ?_
  rw [bind_assoc]
  refine bind_congr_ok fun b _ => ?_
  cases b with
  | false => rfl
  | true =>
    rw [if_pos rfl, if_pos rfl, evalLinks]
    rfl

/-- A chain has the outcome of the conjunction of its links. -/
theorem evalWith_conjunction {first : Expr} {l : CompareOp × Expr}
    {rest : List (CompareOp × Expr)}
    (h : ∀ p ∈ (l :: rest).dropLast, p.2.isNameOrLiteral = true) (site : Identity) :
    evalWith host call c site (compare first (l :: rest)) =
      evalWith host call c site (conjunction first l rest) := by
  -- the right operand of the first link is the left operand of the conjunction of the others
  induction rest generalizing first l site with
  | nil => rfl
  | cons next rest ih =>
    obtain ⟨op, e⟩ := l
    rw [List.dropLast_cons_cons, List.forall_mem_cons] at h
    obtain ⟨he, hinterior⟩ := h
    rw [conjunction, evalWith_and_link, ← ih hinterior, evalWith_compare_cons]
    refine bind_congr_ok fun left _ => bind_congr_ok fun right hright => ?_
    -- written a second time it stands elsewhere, and has the value it had
    have hagain : evalWith host call c (((site.operand 1).link rest).operand 0) e = .ok right :=
      (evalWith_isNameOrLiteral he _ _).trans hright
    rw [evalWith_compare, hagain, ok_bind]

/-! ## The first link that is false -/

/-- The links of a chain lead from the value on their left to one that is false, the last of
them, and those before it hold. The operands are evaluated by `value` at their places in the
chain, in which `later` is what comes after these links. -/
inductive FirstFalse (host : Host) (value : Identity → Expr → Outcome Value)
    (later : List (CompareOp × Expr)) : Identity → Value → List (CompareOp × Expr) → Prop
  | here {site : Identity} {left right : Value} {op : CompareOp} {e : Expr}
      (hright : value ((site.link later).operand 1) e = .ok right)
      (h : op.holds host (site.link later) left right = .ok false) :
      FirstFalse host value later site left [(op, e)]
  | next {site : Identity} {left right : Value} {op : CompareOp} {e : Expr}
      {rest : List (CompareOp × Expr)}
      (hright : value ((site.link (rest ++ later)).operand 1) e = .ok right)
      (h : op.holds host (site.link (rest ++ later)) left right = .ok true)
      (hrest : FirstFalse host value later (site.operand 1) right rest) :
      FirstFalse host value later site left ((op, e) :: rest)

theorem FirstFalse.ne_nil {value : Identity → Expr → Outcome Value}
    {later checked : List (CompareOp × Expr)} {site : Identity} {left : Value}
    (h : FirstFalse host value later site left checked) : checked ≠ [] := by
  cases h <;> exact List.cons_ne_nil _ _

/-- Which link is the first that is false does not depend on what stands in the links after it. -/
theorem FirstFalse.other_later {value : Identity → Expr → Outcome Value}
    {later later' checked : List (CompareOp × Expr)} {site : Identity} {left : Value}
    (h : FirstFalse host value later site left checked) (hlater : later = [] ↔ later' = []) :
    FirstFalse host value later' site left checked := by
  induction h with
  | here hright h =>
    rw [Identity.link_congr hlater] at hright h
    exact .here hright h
  | @next site left right op e rest hright h _ ih =>
    have hrest : rest ++ later = [] ↔ rest ++ later' = [] := by
      rw [List.append_eq_nil_iff, List.append_eq_nil_iff, hlater]
    rw [Identity.link_congr hrest] at hright h
    exact .next hright h ih

theorem evalLinks_of_firstFalse {checked later : List (CompareOp × Expr)} {site : Identity}
    {left : Value} (h : FirstFalse host (evalWith host call c) later site left checked) :
    evalLinks host call c site left (checked ++ later) = .ok false := by
  induction h with
  | here hright h =>
    rw [List.singleton_append, evalLinks, evalLink, hright, ok_bind, h]
    rfl
  | next hright h _ ih =>
    rw [List.cons_append, evalLinks, evalLink, hright, ok_bind, h, ok_bind, if_pos rfl]
    exact ih

/-- A chain is false exactly when its links lead to a first one that is. -/
theorem evalLinks_eq_false_iff {links : List (CompareOp × Expr)} {site : Identity} {left : Value} :
    evalLinks host call c site left links = .ok false ↔
      ∃ checked later, links = checked ++ later ∧
        FirstFalse host (evalWith host call c) later site left checked := by
  constructor
  · intro h
    induction links generalizing site left with
    | nil =>
      rw [evalLinks] at h
      cases h
    | cons l rest ih =>
      obtain ⟨op, e⟩ := l
      rw [evalLinks, evalLink, bind_eq_ok] at h
      obtain ⟨right, hright, h⟩ := h
      obtain ⟨b, hb, h⟩ := bind_eq_ok.mp h
      cases b with
      | false => exact ⟨[(op, e)], rest, rfl, .here hright hb⟩
      | true =>
        rw [if_pos rfl] at h
        obtain ⟨checked, later, rfl, hrest⟩ := ih h
        exact ⟨(op, e) :: checked, later, rfl, .next hright hb hrest⟩
  · rintro ⟨checked, later, rfl, h⟩
    exact evalLinks_of_firstFalse h

theorem evalWith_compare_of_firstFalse {first : Expr} {checked later : List (CompareOp × Expr)}
    {site : Identity} {left : Value}
    (hfirst :
      evalWith host call c ((site.link (checked ++ later).tail).operand 0) first = .ok left)
    (h : FirstFalse host (evalWith host call c) later site left checked) :
    evalWith host call c site (compare first (checked ++ later)) = .ok (.bool false) := by
  rw [evalWith, hfirst, ok_bind, evalLinks_of_firstFalse h]
  rfl

/-! ## Chains -/

/-- A chain of comparisons with names or literals between its links has the outcome of the
conjunction of the links. In every chain the links after the first one that is false do not
matter: whatever stands in their places, the chain is false. -/
theorem chain_eq_conjunction (host : Host) (depth : Nat) (c : Context) (site : Identity)
    (first : Expr) :
    (∀ (l : CompareOp × Expr) (rest : List (CompareOp × Expr)),
      (∀ p ∈ (l :: rest).dropLast, p.2.isNameOrLiteral = true) →
        (compare first (l :: rest)).evalWithin host depth c site =
          (conjunction first l rest).evalWithin host depth c site) ∧
    ∀ (checked later : List (CompareOp × Expr)) (left : Value),
      first.evalWithin host depth c ((site.link (checked ++ later).tail).operand 0) = .ok left →
      FirstFalse host (fun site e => e.evalWithin host depth c site) later site left checked →
        ∀ later' : List (CompareOp × Expr), (later = [] ↔ later' = []) →
          (compare first (checked ++ later')).evalWithin host depth c site =
            .ok (.bool false) := by
  cases depth with
  | zero => exact ⟨fun _ _ _ => rfl, fun _ _ _ hfirst => by cases hfirst⟩
  | succ depth =>
    refine ⟨fun l rest h => evalWith_conjunction h site, ?_⟩
    intro checked later left hfirst h later' hlater
    refine evalWith_compare_of_firstFalse ?_ (h.other_later hlater)
    have htail : (checked ++ later).tail = [] ↔ (checked ++ later').tail = [] := by
      rw [List.tail_append_of_ne_nil h.ne_nil, List.tail_append_of_ne_nil h.ne_nil,
        List.append_eq_nil_iff, List.append_eq_nil_iff, hlater]
    rw [← Identity.link_congr htail]
    exact hfirst

/-- Links of three kinds. The second is false where `x` is a text, and the operand of the last
is a name that nothing binds. -/
def mixedLinks : List (CompareOp × Expr) :=
  [(.isIn, .name "x"), (.same, .const .none), (.eq, .name "nowhere")]

theorem chain_eq_conjunction_mixedLinks :
    (Expr.name "nowhere").evalWithin .idle 1 [("x", .str "ab")] .origin =
        .error (.unbound "nowhere") ∧
      (compare (.str "a" false) mixedLinks).evalWithin .idle 1 [("x", .str "ab")] .origin =
        (conjunction (.str "a" false) (.isIn, .name "x") mixedLinks.tail).evalWithin .idle 1
          [("x", .str "ab")] .origin ∧
      (compare (.str "a" false) mixedLinks).evalWithin .idle 1 [("x", .str "ab")] .origin =
        .ok (.bool false) := by
  obtain ⟨hconjunction, hfalse⟩ :=
    chain_eq_conjunction .idle 1 [("x", .str "ab")] .origin (.str "a" false)
  have hcontains : (Value.str "ab").contains .idle (Identity.origin.operand 0) (.str "a") =
      .ok true := by
    with_unfolding_all rfl
  -- only the first two links are looked at
  have hfirst : FirstFalse .idle (fun site e => e.evalWithin .idle 1 [("x", .str "ab")] site)
      (mixedLinks.drop 2) .origin (.str "a") (mixedLinks.take 2) :=
    .next rfl hcontains (.here rfl rfl)
  refine ⟨rfl, hconjunction _ _ (by simp [isNameOrLiteral]), ?_⟩
  exact hfalse _ _ (.str "a") (by with_unfolding_all rfl) hfirst _ Iff.rfl

end Expr

end FilterLang
