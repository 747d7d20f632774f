import FilterLang.Proofs.Composition.Normalization
import FilterLang.Proofs.Composition.Reflection
import FilterLang.Proofs.Value.Literal
/-!
Marked domains: composition is substitution.

A list of fragments that begins with an operator is read as a formula whose operands are
the other fragments, each of them one or more formulas that hold together. Since every
fragment is normalized before it is written down, each operand becomes one formula, and
what is composed spells the formula with these in the places of its operands
(`items_subst`).
-/

namespace FilterLang

namespace Domain

/-- Formulas side by side, at least one, that are meant to hold together. -/
structure Conjunction where
  first : Formula Condition
  more : List (Formula Condition)

namespace Conjunction

/-- The domain that lists the formulas of a conjunction. -/
def items (c : Conjunction) : List Json :=
  (c.first :: c.more).flatMap Formula.items

def holds (v : Condition → Bool) (c : Conjunction) : Bool :=
  (c.first :: c.more).all (·.holds v)

def formula (c : Conjunction) : Formula Condition :=
  c.first.conjoin c.more

theorem holds_formula (v : Condition → Bool) (c : Conjunction) :
    c.formula.holds v = c.holds v :=
  Formula.holds_conjoin v c.first c.more

theorem normalize_items (c : Conjunction) : normalize c.items = c.formula.items :=
  normalize_flatMap_items c.first c.more

end Conjunction

/-- The domain that a fragment in a formula of fragments evaluates to: an operator alone, or
a conjunction. -/
def Part.domain : Part Conjunction → List Json
  | operator o => [o.item]
  | operand c => c.items

theorem normalize_operator (o : Operator) : normalize [o.item] = [o.item] := by
  rcases o with _ | ⟨_ | _⟩ <;> rfl

/-- A formula with its conjunctions put in place is spelled by the domains of its parts, each
normalized by itself. -/
theorem items_subst (t : Formula Conjunction) :
    (t.subst Conjunction.formula).items = t.parts.flatMap fun p => normalize p.domain := by
  unfold Formula.items
  induction t with
  | operand c =>
    simp only [Formula.subst, Formula.parts, List.flatMap_cons, List.flatMap_nil,
      List.append_nil, Part.domain, Conjunction.normalize_items]
    rfl
  | not f ih =>
    simp only [Formula.subst, Formula.parts, List.map_cons, List.flatMap_cons, ih, Part.domain,
      normalize_operator]
    rfl
  | join j l r ihl ihr =>
    simp only [Formula.subst, Formula.parts, List.map_cons, List.map_append, List.flatMap_cons,
      List.flatMap_append, ihl, ihr, Part.domain, normalize_operator]
    rfl

end Domain

namespace Composition

open Fallible Table Domain

/-- Fragments that are normalized one by one. -/
theorem composeDomains_normalized {host : Host} {c : Context} (hc : Ordered c)
    {fragments : List Fragment} {domains : List (List Json)}
    (hempty : ∀ f ∈ fragments, f.isEmpty = false)
    (heval : List.Forall₂ (fun f items => domainOf host c f = .ok items) fragments domains) :
    composeDomains host c true fragments = .ok (domains.flatMap normalize) := by
  induction heval with
  | nil => rfl
  | @cons f items fragments domains hf _ ih =>
    have hrest := ih fun g hg => hempty g (List.mem_cons_of_mem f hg)
    rw [composeDomains_cons hc true (hempty f List.mem_cons_self), hf, ok_bind, hrest, ok_bind]
    rfl

/-- The documents that ask for the fragments of a domain to be normalized. -/
def marker (o : Operator) : Json :=
  .array [o.item]

theorem isMarked_of_marker {o : Operator} (ho : o = .junction .or ∨ o = .not) {rest : List Json}
    {fragments : List Fragment} (h : Fragment.ofItems (marker o :: rest) = .ok fragments) :
    isMarked fragments = true := by
  rw [Fragment.ofItems] at h
  obtain ⟨f, hf, h⟩ := bind_eq_ok.mp h
  obtain ⟨fs, _, hpair⟩ := bind_eq_ok.mp h
  cases hpair
  rcases ho with rfl | rfl <;> (cases hf; rfl)

/-- A list of fragments that begins with an operator, and that reads as a formula over
conjunctions, composes to that formula with the conjunctions in its places. -/
theorem evaluate_marked (host : Host) (base : Table Json) {o : Operator}
    (ho : o = .junction .or ∨ o = .not) {rest : List Json} {fragments : List Fragment}
    (hdocs : Fragment.ofItems (marker o :: rest) = .ok fragments)
    (hempty : ∀ f ∈ fragments, f.isEmpty = false) {t : Formula Conjunction}
    (heval : List.Forall₂ (fun f p => domainOf host (seed host base) f = .ok p.domain)
      fragments t.parts) :
    ∃ g : Formula Condition,
      evaluate host .domain (marker o :: rest) base = .ok (.array g.items) ∧
        (∀ g' : Formula Condition, g'.items = g.items → g' = g) ∧
        ∀ v : Condition → Bool, g.holds v = t.holds fun c => c.holds v := by
  refine ⟨t.subst Conjunction.formula, ?_, fun g' hg' => Formula.items_injective hg', fun v => ?_⟩
  · have hdomains : List.Forall₂ (fun f items => domainOf host (seed host base) f = .ok items)
        fragments (t.parts.map Part.domain) := by
      rw [List.forall₂_map_right_iff]
      exact heval
    have hcompose := composeDomains_normalized (ordered_seed host base) hempty hdomains
    rw [List.flatMap_map, ← items_subst] at hcompose
    rw [evaluate, hdocs, ok_bind, compose, isMarked_of_marker ho hdocs, hcompose]
    rfl
  · rw [Formula.holds_subst]
    simp only [Conjunction.holds_formula]

def twoOperands : List Json :=
  [.array [.int 1, .int 2],
    .object [("__domains", .array [.array [.int 3]]), ("__ref", .str "compound_domain")]]

/-- The fragments that `twoOperands` are, after the operator that joins them. -/
def markedFragments : List Fragment :=
  [.literal (marker (.junction .or)), .literal (.array [.int 1, .int 2]),
    .compound (.literal .null) [.literal (.array [.int 3])]]

/-- Either both conditions of the first operand hold, or that of the second. -/
def alternative : Formula Conjunction :=
  .join .or (.operand ⟨wholeCondition 1, [wholeCondition 2]⟩) (.operand ⟨wholeCondition 3, []⟩)

theorem evaluate_marked_twoOperands :
    Fragment.ofItems (marker (.junction .or) :: twoOperands) = .ok markedFragments ∧
      (∀ f ∈ markedFragments, f.isEmpty = false) ∧
      List.Forall₂ (fun f p => domainOf .idle (seed .idle []) f = .ok p.domain) markedFragments
        alternative.parts ∧
      ∃ g : Formula Condition,
        evaluate .idle .domain (marker (.junction .or) :: twoOperands) [] = .ok (.array g.items) ∧
          (∀ g' : Formula Condition, g'.items = g.items → g' = g) ∧
          ∀ v : Condition → Bool, g.holds v = alternative.holds fun c => c.holds v := by
  have hempty : ∀ f ∈ markedFragments, f.isEmpty = false := by
    simp [markedFragments, Fragment.isEmpty, marker]
  have heval : List.Forall₂ (fun f p => domainOf .idle (seed .idle []) f = .ok p.domain)
      markedFragments alternative.parts :=
    .cons rfl (.cons rfl (.cons rfl .nil))
  exact ⟨rfl, hempty, heval, evaluate_marked .idle [] (Or.inl rfl) rfl hempty heval⟩

end Composition

end FilterLang
