import FilterLang.Proofs.Value.Ordering
import FilterLang.Value.Call
/-!
The least and the greatest of several values.

One pass over the candidates keeps the best of them so far; a candidate takes its place only when
it is strictly before it in the order. What the pass keeps is therefore always the first extreme of
the candidates that it has seen (`Leads.step`), and of all of them at its end (`bestOf_leads`). The
functions `min` and `max` return that element, whether the candidates are their arguments or the
elements of a single one, and in whatever order the candidates come, what they return is equal
(`extremes_selected`).
-/

namespace FilterLang.Value

open Fallible

variable {host : Host} {site : Identity} {runBody : Expr → Table Value → Outcome Value}
  {owner : Identity → Class}

/-- Which of several values is wanted. -/
inductive Extreme where
  | least
  | greatest

namespace Extreme

def function : Extreme → Function
  | least => .min
  | greatest => .max

/-- The comparison by which a candidate takes the place of the best so far. -/
def strict : Extreme → Relation
  | least => .lt
  | greatest => .gt

/-- How the extreme compares with every element. -/
def weak : Extreme → Relation
  | least => .le
  | greatest => .ge

/-- How a value is ordered to one that it is preferred to. -/
def side : Extreme → Ordering
  | least => .lt
  | greatest => .gt

@[simp] theorem strict_accepts (x : Extreme) (o : Ordering) :
    x.strict.accepts o = (o == x.side) := by
  cases x <;> cases o <;> rfl

@[simp] theorem weak_accepts (x : Extreme) (o : Ordering) :
    x.weak.accepts o = (o != x.side.swap) := by
  cases x <;> cases o <;> rfl

@[simp] theorem flip_strict_accepts (x : Extreme) (o : Ordering) :
    x.strict.flip.accepts o = (o.swap == x.side) := by
  cases x <;> cases o <;> rfl

theorem side_ne_swap (x : Extreme) : x.side ≠ x.side.swap := by
  cases x <;> decide

/-- Neither of two values is preferred to the other only when they are equal. -/
theorem eq_of_ne_side (x : Extreme) {o : Ordering} (h : o ≠ x.side.swap)
    (h' : o.swap ≠ x.side.swap) : o = .eq := by
  cases x <;> cases o <;> first | rfl | exact absurd rfl h | exact absurd rfl h'

end Extreme

/-! ## One pass -/

/-- Of the values seen so far, the one at a position is preferred to all before it, and none is
preferred to it. -/
structure Leads (x : Extreme) (seen : List Value) (p : Nat) (best : Value) : Prop where
  element : seen[p]? = some best
  bound : ∀ w ∈ seen, best.rank.order w.rank ≠ x.side.swap
  earlier : ∀ q < p, ∀ w, seen[q]? = some w → best.rank.order w.rank = x.side

theorem order_self (v : Value) : v.rank.order v.rank = .eq := by
  have hswap := Rank.order_swap v.rank v.rank
  cases h : v.rank.order v.rank <;> rw [h] at hswap <;> first | rfl | cases hswap

theorem leads_singleton (x : Extreme) (v : Value) : Leads x [v] 0 v where
  element := rfl
  bound := by
    intro w hw
    rw [List.mem_singleton.mp hw, order_self]
    cases x <;> decide
  earlier := fun q hq => absurd hq (Nat.not_lt_zero q)

section Step

variable {x : Extreme} {seen : List Value} {p : Nat} {best v : Value}

theorem Leads.position_lt (h : Leads x seen p best) : p < seen.length :=
  (List.getElem?_eq_some_iff.mp h.element).1

/-- A value that is preferred to the best so far is preferred to all that were seen. -/
theorem Leads.preferred (h : Leads x seen p best) (hv : v.rank.order best.rank = x.side) :
    ∀ w ∈ seen, v.rank.order w.rank = x.side := by
  intro w hw
  obtain ⟨_, heq, hboth⟩ := Rank.order_fits v.rank best.rank w.rank
  have hbound := h.bound w hw
  cases hbw : best.rank.order w.rank with
  | eq => rw [heq hbw, hv]
  | lt | gt =>
    -- the best so far and the value agree on the side, for it is not the other one
    have hside : best.rank.order w.rank = x.side := by
      rw [hbw] at hbound ⊢
      cases x <;> first | rfl | exact absurd rfl hbound
    rw [hboth (hv.trans hside.symm), hv]

/-- A preferred candidate takes the place of the best so far. -/
theorem Leads.replaced (h : Leads x seen p best) (hv : v.rank.order best.rank = x.side) :
    Leads x (seen ++ [v]) seen.length v where
  element := by simp
  bound := by
    intro w hw
    rcases List.mem_append.mp hw with hw | hw
    · rw [h.preferred hv w hw]
      exact x.side_ne_swap
    · exact (leads_singleton x v).bound w hw
  earlier := by
    intro q hq w hw
    rw [List.getElem?_append_left hq] at hw
    exact h.preferred hv w (List.mem_of_getElem? hw)

/-- Any other candidate leaves it in its place. -/
theorem Leads.kept (h : Leads x seen p best) (hv : v.rank.order best.rank ≠ x.side) :
    Leads x (seen ++ [v]) p best where
  element := by rw [List.getElem?_append_left h.position_lt, h.element]
  bound := by
    intro w hw
    rcases List.mem_append.mp hw with hw | hw
    · exact h.bound w hw
    · rw [List.mem_singleton.mp hw, Rank.order_swap v.rank best.rank]
      intro hswap
      exact hv (by simpa using congrArg Ordering.swap hswap)
  earlier := by
    intro q hq w hw
    rw [List.getElem?_append_left (hq.trans h.position_lt)] at hw
    exact h.earlier q hq w hw

end Step

/-- The pass ends with the first extreme of all candidates, when it starts with that of the
candidates before. -/
theorem bestOf_leads {x : Extreme} {seen rest : List Value} {p : Nat} {best : Value}
    (h : Leads x seen p best) (hbest : best.RankedThroughout owner)
    (hrest : ∀ v ∈ rest, v.RankedThroughout owner) :
    ∃ p' v, bestOf host site x.strict best rest = .ok v ∧ Leads x (seen ++ rest) p' v := by
  induction rest generalizing seen p best with
  | nil => exact ⟨p, best, rfl, by simpa using h⟩
  | cons v rest ih =>
    have hv : v.RankedThroughout owner := hrest v (by simp)
    have htail : ∀ w ∈ rest, w.RankedThroughout owner := fun w hw => hrest w (by simp [hw])
    have hcompare : compareWith host site x.strict v best =
        .ok (.bool (v.rank.order best.rank == x.side)) := by
      rw [compareWith_rank host site hv hbest, x.strict_accepts]
    rw [bestOf, hcompare, ok_bind, isTruthy, ok_bind]
    by_cases hside : v.rank.order best.rank = x.side
    · obtain ⟨p', w, hw, hleads⟩ := ih (h.replaced hside) hv htail
      refine ⟨p', w, ?_, by simpa using hleads⟩
      simpa [hside] using hw
    · obtain ⟨p', w, hw, hleads⟩ := ih (h.kept hside) hbest htail
      refine ⟨p', w, ?_, by simpa using hleads⟩
      simpa [hside] using hw

/-- Of two leading values of the same values, in whatever order these came, none is preferred. -/
theorem Leads.order_eq_of_perm {x : Extreme} {vs ws : List Value} {p q : Nat} {v w : Value}
    (hv : Leads x vs p v) (hw : Leads x ws q w) (hperm : ws.Perm vs) :
    w.rank.order v.rank = .eq := by
  have hmem : v ∈ ws := hperm.mem_iff.mpr (List.mem_of_getElem? hv.element)
  have hmem' : w ∈ vs := hperm.mem_iff.mp (List.mem_of_getElem? hw.element)
  refine x.eq_of_ne_side (hw.bound v hmem) ?_
  rw [← Rank.order_swap]
  exact hv.bound w hmem'

/-! ## The functions -/

/-- The element at a position of a list is its first extreme: it compares with every element as an
extreme does, and every earlier element is strictly on the other side of it. -/
structure FirstExtreme (host : Host) (site : Identity) (x : Extreme) (vs : List Value) (p : Nat)
    (v : Value) : Prop where
  element : vs[p]? = some v
  bound : ∀ w ∈ vs, Satisfies host site x.weak v w
  earlier : ∀ q < p, ∀ w, vs[q]? = some w → Satisfies host site x.strict.flip w v
  /-- No earlier position has an element that is an extreme as well. -/
  least : ∀ q w, vs[q]? = some w → (∀ u ∈ vs, Satisfies host site x.weak w u) → p ≤ q

theorem Leads.firstExtreme {x : Extreme} {vs : List Value} {p : Nat} {v : Value}
    (h : Leads x vs p v) (hvs : ∀ w ∈ vs, w.RankedThroughout owner) :
    FirstExtreme host site x vs p v := by
  have hmem : v ∈ vs := List.mem_of_getElem? h.element
  refine ⟨h.element, fun w hw => ?_, fun q hq w hw => ?_, fun q w hw hextreme => ?_⟩
  · rw [satisfies_iff (hvs v hmem) (hvs w hw)]
    simpa using h.bound w hw
  · rw [satisfies_iff (hvs w (List.mem_of_getElem? hw)) (hvs v hmem), x.flip_strict_accepts,
      ← Rank.order_swap]
    simpa using h.earlier q hq w hw
  · by_contra hlt
    -- an earlier element is on the other side, so it does not bound this one
    have hbound := hextreme v hmem
    rw [satisfies_iff (hvs w (List.mem_of_getElem? hw)) (hvs v hmem), x.weak_accepts,
      Rank.order_swap v.rank w.rank, h.earlier q (Nat.lt_of_not_le hlt) w hw] at hbound
    simp at hbound

/-- The function picks a value from candidates that are the elements of its only argument, or, when
there are several, its arguments. -/
structure Picks (host : Host) (site : Identity) (runBody : Expr → Table Value → Outcome Value)
    (x : Extreme) (vs : List Value) (v : Value) : Prop where
  iterable : ∀ single : Value, single.iterate site = .ok vs →
    (function x.function).callWith host site runBody [single] [] = .ok v
  arguments : 2 ≤ vs.length → (function x.function).callWith host site runBody vs [] = .ok v

/-- All arguments of a call are candidates. -/
theorem callWith_extreme (x : Extreme) (args : List Value) :
    (function x.function).callWith host site runBody args [] =
      extreme host site x.strict x.function.name args := by
  cases x <;> cases args <;> rfl

/-- From ordered candidates the functions pick the first extreme. -/
theorem leads_picks (x : Extreme) {vs : List Value} (hne : vs ≠ [])
    (hvs : ∀ v ∈ vs, v.RankedThroughout owner) :
    ∃ p v, Leads x vs p v ∧ Picks host site runBody x vs v := by
  obtain ⟨first, rest, rfl⟩ := List.exists_cons_of_ne_nil hne
  obtain ⟨hfirst, hrest⟩ := List.forall_mem_cons.mp hvs
  obtain ⟨p, v, hpass, hleads⟩ := bestOf_leads (leads_singleton x first) hfirst hrest
  refine ⟨p, v, hleads, ?_, ?_⟩
  · intro single hsingle
    rw [callWith_extreme, extreme, hsingle]
    exact hpass
  · intro hlength
    -- with two arguments or more, none of them is opened
    cases rest with
    | nil => simp at hlength
    | cons second others =>
      rw [callWith_extreme]
      exact hpass

/-- From values that are ordered, as the elements of one argument or as several arguments, `min`
picks the first that is at most every other, and `max` the first that is at least every other. All
elements before it are strictly greater, or less. Candidates in another order give an equal
value. -/
theorem extremes_selected (host : Host) (site : Identity)
    (runBody : Expr → Table Value → Outcome Value) {owner : Identity → Class} {vs : List Value}
    (hne : vs ≠ []) (hvs : ∀ v ∈ vs, v.RankedThroughout owner) (x : Extreme) :
    ∃ p v, FirstExtreme host site x vs p v ∧ Picks host site runBody x vs v ∧
      ∀ ws : List Value, ws.Perm vs →
        ∃ w, Picks host site runBody x ws w ∧ Satisfies host site .eq w v := by
  obtain ⟨p, v, hleads, hpicks⟩ := leads_picks x hne hvs
  refine ⟨p, v, hleads.firstExtreme hvs, hpicks, ?_⟩
  intro ws hperm
  have hws : ∀ w ∈ ws, w.RankedThroughout owner := fun w hw => hvs w (hperm.mem_iff.mp hw)
  have hne' : ws ≠ [] := fun h => hne (h ▸ hperm).nil_eq.symm
  obtain ⟨q, w, hleads', hpicks'⟩ := leads_picks x hne' hws
  refine ⟨w, hpicks', ?_⟩
  rw [satisfies_iff (hws w (List.mem_of_getElem? hleads'.element))
    (hvs v (List.mem_of_getElem? hleads.element)), hleads.order_eq_of_perm hleads' hperm]
  rfl

/-- A list, a number, a tuple and the number again. -/
def mixedCandidates : List Value :=
  [smallList, number 1.0, datedTuple, number 1.0]

theorem ranked_mixedCandidates :
    ∀ v ∈ mixedCandidates, v.RankedThroughout fun _ => .date := by
  intro v hv
  simp only [mixedCandidates, List.mem_cons, List.not_mem_nil, or_false] at hv
  rcases hv with rfl | rfl | rfl | rfl
  · exact ranked_smallList _
  · exact ranked_one _
  · exact ranked_datedTuple
  · exact ranked_one _

theorem extremes_selected_mixedCandidates :
    ∃ p, FirstExtreme .idle .origin .least mixedCandidates p (number 1.0) ∧
      (function .min).callWith .idle .origin (fun _ _ => .error .tooDeep) mixedCandidates [] =
        .ok (number 1.0) := by
  obtain ⟨p, v, hfirst, hpicks, -⟩ := extremes_selected .idle .origin (fun _ _ => .error .tooDeep)
    (by simp [mixedCandidates]) ranked_mixedCandidates .least
  have hmin : (function .min).callWith .idle .origin (fun _ _ => .error .tooDeep)
      mixedCandidates [] = .ok (number 1.0) := by
    with_unfolding_all rfl
  obtain rfl : number 1.0 = v :=
    Except.ok.inj (hmin.symm.trans (hpicks.arguments (by simp [mixedCandidates])))
  exact ⟨p, hfirst, hmin⟩

end FilterLang.Value
