import FilterLang.Composition.Fragment
import Mathlib.Algebra.Ring.Int.Defs
/-!
Domains as formulas in prefix notation.

A formula is a tree of operators over operands, and its parts are what prefix notation
writes of it. Prefix notation needs no brackets: what begins with the parts of a formula
begins with those of no other one (`parts_cancel`). The operands of a domain are its
conditions, the items that are no operators.

`Domain.wanted` counts what a formula leaves open: each complete formula fills one place
(`sum_demand_items`), so of `k` formulas side by side all but one are too many. That is how
many joins `Domain.normalize` writes in front, and the formula that it so spells joins
the `k` from the left (`normalize_flatMap_items`).
-/

namespace FilterLang.Domain

/-! ## Formulas -/

/-- The operators with two operands. -/
inductive Junction where
  | and | or
deriving DecidableEq

inductive Operator where
  | not
  | junction (j : Junction)
deriving DecidableEq

/-- A formula over operands of a type. -/
inductive Formula (α : Type) where
  | operand (a : α)
  | not (f : Formula α)
  | join (j : Junction) (left right : Formula α)

/-- What a formula is written with. -/
inductive Part (α : Type) where
  | operator (o : Operator)
  | operand (a : α)

/-- Whether two formulas, joined, hold. -/
def Junction.apply : Junction → Bool → Bool → Bool
  | and => (· && ·)
  | or => (· || ·)

namespace Formula

variable {α β : Type}

/-- A formula in prefix notation. -/
def parts : Formula α → List (Part α)
  | operand a => [.operand a]
  | not f => .operator .not :: f.parts
  | join j l r => .operator (.junction j) :: (l.parts ++ r.parts)

/-- Whether a formula holds, given which operands do. -/
def holds (v : α → Bool) : Formula α → Bool
  | operand a => v a
  | not f => !f.holds v
  | join j l r => j.apply (l.holds v) (r.holds v)

/-- A formula with formulas in the place of its operands. -/
def subst (sub : α → Formula β) : Formula α → Formula β
  | operand a => sub a
  | not f => not (f.subst sub)
  | join j l r => join j (l.subst sub) (r.subst sub)

/-- A formula and further ones, joined by "and" from the left. -/
def conjoin (f : Formula α) (more : List (Formula α)) : Formula α :=
  more.foldl (join .and) f

theorem conjoin_cons (f g : Formula α) (more : List (Formula α)) :
    f.conjoin (g :: more) = (join .and f g).conjoin more := rfl

theorem holds_subst (v : β → Bool) (sub : α → Formula β) (f : Formula α) :
    (f.subst sub).holds v = f.holds fun a => (sub a).holds v := by
  induction f with
  | operand a => rfl
  | not f ih => simp only [subst, holds, ih]
  | join j l r ihl ihr => simp only [subst, holds, ihl, ihr]

theorem holds_conjoin (v : α → Bool) (f : Formula α) (more : List (Formula α)) :
    (f.conjoin more).holds v = (f :: more).all (·.holds v) := by
  induction more generalizing f with
  | nil => simp [conjoin]
  | cons g more ih =>
    rw [conjoin_cons, ih]
    simp [holds, Junction.apply, Bool.and_assoc]

theorem parts_conjoin (f : Formula α) (more : List (Formula α)) :
    (f.conjoin more).parts =
      List.replicate more.length (.operator (.junction .and)) ++ (f :: more).flatMap parts := by
  induction more generalizing f with
  | nil => simp [conjoin]
  | cons g more ih =>
    -- the operator of the innermost pair stands last of all operators
    rw [conjoin_cons, ih, List.length_cons, List.replicate_succ']
    simp [parts]

/-- Prefix notation can be read in one way only, whatever stands after it. -/
theorem parts_cancel (f g : Formula α) (r s : List (Part α)) (h : f.parts ++ r = g.parts ++ s) :
    f = g ∧ r = s := by
  induction f generalizing g r s with
  | operand a =>
    cases g with
    | operand b => simpa [parts] using h
    | not | join => simp [parts] at h
  | not f ih =>
    cases g with
    | not g =>
      simp only [parts, List.cons_append, List.cons.injEq, true_and] at h
      obtain ⟨rfl, hrest⟩ := ih g r s h
      exact ⟨rfl, hrest⟩
    | operand | join => simp [parts] at h
  | join j l₁ r₁ ihl ihr =>
    cases g with
    | join k l₂ r₂ =>
      simp only [parts, List.cons_append, List.cons.injEq, Part.operator.injEq,
        Operator.junction.injEq, List.append_assoc] at h
      obtain ⟨rfl, hboth⟩ := h
      obtain ⟨rfl, hright⟩ := ihl l₂ _ _ hboth
      obtain ⟨rfl, hrest⟩ := ihr r₂ r s hright
      exact ⟨rfl, hrest⟩
    | operand | not => simp [parts] at h

end Formula

/-! ## Domains -/

/-- The item that an operator is in a domain. -/
def Operator.item : Operator → Json
  | not => .str "!"
  | junction .and => .str "&"
  | junction .or => .str "|"

/-- A condition: an item that is no operator. -/
def Condition : Type := { j : Json // ∀ o : Operator, j ≠ o.item }

/-- The item of a domain that a part of a formula over conditions is. -/
def Part.item : Part Condition → Json
  | operator o => o.item
  | operand c => c.1

/-- A formula over conditions as a domain. -/
def Formula.items (f : Formula Condition) : List Json :=
  f.parts.map Part.item

theorem Operator.item_injective : Function.Injective Operator.item := by
  intro o p h
  rcases o with _ | ⟨_ | _⟩ <;> rcases p with _ | ⟨_ | _⟩ <;> first | rfl | simp [item] at h

theorem Part.item_injective : Function.Injective Part.item := by
  intro p q h
  cases p with
  | operator o =>
    cases q with
    | operator o' => rw [Operator.item_injective h]
    | operand c => exact absurd h.symm (c.2 o)
  | operand c =>
    cases q with
    | operator o => exact absurd h (c.2 o)
    | operand c' => rw [Subtype.ext h]

/-- A domain spells one formula at most. -/
theorem Formula.items_injective : Function.Injective Formula.items := by
  intro f g h
  have hparts : f.parts = g.parts :=
    (List.map_inj_right fun p q hpq => Part.item_injective hpq).mp h
  refine (parts_cancel f g [] [] ?_).1
  rw [hparts]

theorem items_conjoin (f : Formula Condition) (more : List (Formula Condition)) :
    (f.conjoin more).items =
      List.replicate more.length (.str "&") ++ (f :: more).flatMap Formula.items := by
  rw [Formula.items, Formula.parts_conjoin, List.map_append, List.map_replicate, List.map_flatMap]
  rfl

/-! ## Counting -/

/-- The operands that are wanted after the items of a domain. -/
theorem wanted_eq (items : List Json) : wanted items = 1 + (items.map demand).sum := by
  have hfold : ∀ n : Int,
      items.foldl (fun n item => n + demand item) n = n + (items.map demand).sum := by
    induction items with
    | nil => simp
    | cons j rest ih =>
      intro n
      rw [List.foldl_cons, ih, List.map_cons, List.sum_cons, Int.add_assoc]
  exact hfold 1

theorem demand_condition (c : Condition) : demand c.1 = -1 := by
  obtain ⟨j, hj⟩ := c
  show demand j = -1
  unfold demand
  split
  · exact absurd rfl (hj (.junction .and))
  · exact absurd rfl (hj (.junction .or))
  · exact absurd rfl (hj .not)
  · rfl

theorem demand_junction (j : Junction) : demand (Operator.junction j).item = 1 := by
  cases j <;> rfl

/-- A formula fills the place of one operand. -/
theorem sum_demand_items (f : Formula Condition) : (f.items.map demand).sum = -1 := by
  unfold Formula.items
  induction f with
  | operand c => simp [Formula.parts, Part.item, demand_condition]
  | not f ih => simpa [Formula.parts, Part.item, Operator.item, demand] using ih
  | join j l r ihl ihr =>
    simp only [Formula.parts, List.map_cons, List.map_append, List.sum_cons, List.sum_append, ihl,
      ihr, Part.item, demand_junction]
    omega

theorem wanted_flatMap_items (fs : List (Formula Condition)) :
    wanted (fs.flatMap Formula.items) = 1 - fs.length := by
  rw [wanted_eq]
  induction fs with
  | nil => rfl
  | cons f fs ih =>
    simp only [List.flatMap_cons, List.map_append, List.sum_append, sum_demand_items,
      List.length_cons]
    omega

/-- Formulas side by side are joined by as many operators as they are, less one. -/
theorem normalize_flatMap_items (f : Formula Condition) (more : List (Formula Condition)) :
    normalize ((f :: more).flatMap Formula.items) = (f.conjoin more).items := by
  have hcount : (-wanted ((f :: more).flatMap Formula.items)).toNat = more.length := by
    rw [wanted_flatMap_items, List.length_cons]
    omega
  rw [normalize, hcount, items_conjoin]

theorem wanted_replicate_append (n : Nat) (items : List Json) :
    wanted (List.replicate n (.str "&") ++ items) = wanted items + n := by
  induction n with
  | zero => simp
  | succ n ih =>
    rw [wanted_eq] at ih ⊢
    have hdemand : demand (.str "&") = 1 := rfl
    simp only [List.replicate_succ, List.cons_append, List.map_cons, List.sum_cons, hdemand]
    omega

/-- A domain that was normalized has no join left to write. -/
theorem normalize_normalize (items : List Json) : normalize (normalize items) = normalize items := by
  have hdone : (-wanted (normalize items)).toNat = 0 := by
    rw [normalize, wanted_replicate_append]
    omega
  rw [normalize, hdone, List.replicate_zero, List.nil_append]

/-- Normalization writes the joins that a list of formulas leaves out in front of them: the
result spells one formula, and that holds when all of them do. Whatever a domain is, to
normalize it again changes nothing. -/
theorem normalize_conjoins :
    (∀ fs : List (Formula Condition), fs ≠ [] →
      normalize (fs.flatMap Formula.items) =
          List.replicate (fs.length - 1) (.str "&") ++ fs.flatMap Formula.items ∧
        ∃ f : Formula Condition, f.items = normalize (fs.flatMap Formula.items) ∧
          (∀ g : Formula Condition, g.items = normalize (fs.flatMap Formula.items) → g = f) ∧
          ∀ v : Condition → Bool, f.holds v = fs.all (·.holds v)) ∧
      ∀ items, normalize (normalize items) = normalize items := by
  refine ⟨fun fs hfs => ?_, normalize_normalize⟩
  obtain ⟨f, more, rfl⟩ := List.exists_cons_of_ne_nil hfs
  have hspelled := normalize_flatMap_items f more
  refine ⟨?_, f.conjoin more, hspelled.symm, ?_, fun v => Formula.holds_conjoin v f more⟩
  · rw [hspelled, items_conjoin]
    rfl
  · intro g hg
    exact Formula.items_injective (hg.trans hspelled)

def wholeCondition (n : Int) : Formula Condition :=
  .operand ⟨.int n, fun o => by rcases o with _ | ⟨_ | _⟩ <;> simp [Operator.item]⟩

/-- A condition, a negated one, and an alternative. -/
def threeFormulas : List (Formula Condition) :=
  [wholeCondition 1, .not (wholeCondition 2),
    .join .or (wholeCondition 3) (.not (wholeCondition 4))]

theorem normalize_conjoins_threeFormulas :
    threeFormulas ≠ [] ∧
      normalize (threeFormulas.flatMap Formula.items) =
        [.str "&", .str "&", .int 1, .str "!", .int 2, .str "|", .int 3, .str "!", .int 4] ∧
      ∃ f : Formula Condition, f.items = normalize (threeFormulas.flatMap Formula.items) ∧
        (∀ g : Formula Condition, g.items = normalize (threeFormulas.flatMap Formula.items) →
          g = f) ∧
        ∀ v : Condition → Bool, f.holds v = threeFormulas.all (·.holds v) := by
  have hne : threeFormulas ≠ [] := List.cons_ne_nil _ _
  obtain ⟨hspelled, hread⟩ := normalize_conjoins.1 threeFormulas hne
  exact ⟨hne, hspelled.trans rfl, hread⟩

end FilterLang.Domain
