import FilterLang.Proofs.Value.Equality
/-!
The order of values.

A value has a rank: the name of its class, then a number or a text by which values of the
class are ordered, then the ranks of its items. Ranks are compared part by part, and items in
turn, which gives a total order. The rich comparisons of values made of scalars, sequences and
calendar values are those of their ranks (`compareWith_rank`).
-/

namespace FilterLang

open Fallible

/-! ## Ranks -/

/-- What decides the order of a value. -/
inductive Rank where
  | node (kind : String) (number : Int) (text : String) (items : List Rank)

namespace Rank

mutual

/-- The order of two ranks: the first part in which they differ decides. -/
def order : Rank → Rank → Ordering
  | node k n s xs, node k' n' s' ys =>
    (compare k k').then ((compare n n').then ((compare s s').then (orderItems xs ys)))

/-- The order of two lists of ranks: the first items that differ decide, or else the
lengths. -/
def orderItems : List Rank → List Rank → Ordering
  | [], [] => .eq
  | [], _ :: _ => .lt
  | _ :: _, [] => .gt
  | x :: xs, y :: ys => (x.order y).then (orderItems xs ys)

end

mutual

theorem order_swap : (a b : Rank) → b.order a = (a.order b).swap
  | node k n s xs, node k' n' s' ys => by
    rw [order, order, Ordering.swap_then, Ordering.swap_then, Ordering.swap_then,
      orderItems_swap xs ys, ← Std.OrientedOrd.eq_swap, ← Std.OrientedOrd.eq_swap,
      ← Std.OrientedOrd.eq_swap]

theorem orderItems_swap : (xs ys : List Rank) → orderItems ys xs = (orderItems xs ys).swap
  | [], [] | [], _ :: _ | _ :: _, [] => by simp [orderItems]
  | x :: xs, y :: ys => by
    rw [orderItems, orderItems, Ordering.swap_then, order_swap x y, orderItems_swap xs ys]

end

/-- How the orders of three things fit together: equals can be exchanged, and two steps the
same way are a step that way. -/
def Fits (ab bc ac : Ordering) : Prop :=
  (ab = .eq → ac = bc) ∧ (bc = .eq → ac = ab) ∧ (ab = bc → ac = ab)

theorem Fits.of_compare {α : Type} [Ord α] [Std.TransOrd α] (a b c : α) :
    Fits (compare a b) (compare b c) (compare a c) := by
  refine ⟨fun h => ?_, fun h => ?_, fun h => ?_⟩
  · exact Std.TransCmp.congr_left h
  · exact (Std.TransCmp.congr_right h).symm
  · cases hab : compare a b with
    | lt => exact Std.TransCmp.lt_trans hab (h ▸ hab)
    | eq => rw [Std.TransCmp.congr_left hab, ← h, hab]
    | gt => exact Std.TransCmp.gt_trans hab (h ▸ hab)

/-- Parts that fit together one after the other fit together. -/
theorem Fits.then {ab bc ac ab' bc' ac' : Ordering} (h : Fits ab bc ac) (h' : Fits ab' bc' ac') :
    Fits (ab.then ab') (bc.then bc') (ac.then ac') := by
  obtain ⟨h1, h2, h3⟩ := h
  -- the first parts decide, unless all of them are equal
  cases ab with
  | eq =>
    rw [h1 rfl]
    cases bc with
    | eq => exact h'
    | lt | gt => exact ⟨fun _ => rfl, nofun, Eq.symm⟩
  | lt =>
    cases bc with
    | eq => rw [h2 rfl]; exact ⟨nofun, fun _ => rfl, fun _ => rfl⟩
    | lt => rw [h3 rfl]; exact ⟨nofun, nofun, fun _ => rfl⟩
    | gt => exact ⟨nofun, nofun, nofun⟩
  | gt =>
    cases bc with
    | eq => rw [h2 rfl]; exact ⟨nofun, fun _ => rfl, fun _ => rfl⟩
    | lt => exact ⟨nofun, nofun, nofun⟩
    | gt => rw [h3 rfl]; exact ⟨nofun, nofun, fun _ => rfl⟩

mutual

theorem order_fits : (a b c : Rank) → Fits (a.order b) (b.order c) (a.order c)
  | node k n s xs, node k' n' s' ys, node k'' n'' s'' zs => by
    simp only [order]
    exact (Fits.of_compare k k' k'').then ((Fits.of_compare n n' n'').then
      ((Fits.of_compare s s' s'').then (orderItems_fits xs ys zs)))

theorem orderItems_fits : (xs ys zs : List Rank) →
    Fits (orderItems xs ys) (orderItems ys zs) (orderItems xs zs)
  | [], [], zs => by cases zs <;> simp [orderItems, Fits]
  | [], _ :: _, zs => by cases zs <;> simp [orderItems, Fits]
  | _ :: _, [], zs => by cases zs <;> simp [orderItems, Fits]
  | x :: xs, y :: ys, [] => by simp [orderItems, Fits, eq_comm]
  | x :: xs, y :: ys, z :: zs => by
    simp only [orderItems]
    exact (order_fits x y z).then (orderItems_fits xs ys zs)

end

theorem order_trans {a b c : Rank} (hab : a.order b = .lt) (hbc : b.order c = .lt) :
    a.order c = .lt := by
  obtain ⟨_, _, h⟩ := order_fits a b c
  rw [h (hab.trans hbc.symm), hab]

end Rank

/-! ## Ranks of values -/

/-- The number by which calendar values of one class are ordered. -/
def Temporal.measure : Temporal → Int
  | date d => d.ordinal
  | datetime t => t.micros
  | time c => c.micros
  | duration d => d.micros
  | offset _ => 0

def Value.leafRank : Value → Rank
  | bool b => .node "bool" (if b then 1 else 0) "" []
  | float x => .node "float" (Number.place x.float) "" []
  | str s => .node "str" 0 s []
  | temporal _ t => .node t.cls.name t.measure "" []
  | v => .node v.typeName 0 "" []

mutual

def Json.rank : Json → Rank
  | .array items => .node "list" 0 "" (rankItems items)
  | j => (Value.ofJson .origin j).leafRank

def Json.rankItems : List Json → List Rank
  | [] => []
  | j :: rest => j.rank :: rankItems rest

end

namespace Value

mutual

def rank : Value → Rank
  | tuple _ items => .node "tuple" 0 "" (rankItems items)
  | list _ items => .node "list" 0 "" (rankItems items)
  | nativeList _ items => .node "list" 0 "" (Json.rankItems items)
  | v => v.leafRank

def rankItems : List Value → List Rank
  | [] => []
  | v :: rest => v.rank :: rankItems rest

end

theorem rankItems_eq_map (items : List Value) : rankItems items = items.map rank := by
  induction items with
  | nil => rfl
  | cons v rest ih => rw [rankItems, ih, List.map_cons]

theorem Json.rankItems_eq_map (items : List Json) : Json.rankItems items = items.map Json.rank := by
  induction items with
  | nil => rfl
  | cons j rest ih => rw [Json.rankItems, ih, List.map_cons]

theorem rank_ofJson (site : Identity) (j : Json) : (ofJson site j).rank = j.rank := by
  cases j <;> rfl

theorem rank_of_listItems? {site : Identity} {v : Value} {items : List Value}
    (h : v.listItems? site = some items) : v.rank = .node "list" 0 "" (items.map rank) := by
  cases v with
  | list id xs =>
    cases h
    rw [rank, rankItems_eq_map]
  | nativeList id xs =>
    cases h
    rw [rank, map_ofItems rank_ofJson, Json.rankItems_eq_map]
  | _ => cases h

/-- The values that are ordered: scalars, sequences and calendar values other than offsets. -/
def Ranked (owner : Identity → Class) : Value → Prop
  | null | bool _ | str _ | tuple .. | list .. | nativeList .. => True
  | float x => x.isNumber = true
  | temporal id t => owner id = t.cls ∧ t.cls ≠ .relativedelta
  | _ => False

/-- Ordered values whose items are ordered, to any depth. -/
abbrev RankedThroughout (owner : Identity → Class) (v : Value) : Prop :=
  v.Throughout Member (Ranked owner)

variable {host : Host} {site : Identity} {owner : Identity → Class} {r : Relation} {a b c : Value}

theorem Ranked.regular {v : Value} (h : v.Ranked owner) : v.Regular owner := by
  cases v with
  | float => exact h
  | temporal => exact h.1
  | dict | nativeDict | object => exact h.elim
  | _ => trivial

/-! ## Cases of a comparison -/

theorem order_self_kind (k : String) (n n' : Int) (s s' : String) (xs ys : List Rank) :
    (Rank.node k n s xs).order (.node k n' s' ys) =
      (compare n n').then ((compare s s').then (Rank.orderItems xs ys)) := by
  rw [Rank.order, compare_eq_iff_eq.mpr rfl]
  rfl

theorem order_number (k : String) (n n' : Int) :
    (Rank.node k n "" []).order (.node k n' "" []) = compare n n' := by
  rw [order_self_kind]
  cases compare n n' <;> rfl

theorem order_text (k : String) (s s' : String) :
    (Rank.node k 0 s []).order (.node k 0 s' []) = compare s s' := by
  rw [order_self_kind]
  cases compare s s' <;> rfl

theorem compareFloat_place {x y : Float} (hx : x.isNaN = false) (hy : y.isNaN = false)
    (r : Relation) :
    compareFloat r x y = r.accepts (compare (Number.place x) (Number.place y)) := by
  rw [Bool.eq_iff_iff]
  cases r with
  | eq => simp [compareFloat, Relation.accepts, Number.beq_iff_place hx hy]
  | ne => simp [compareFloat, Relation.accepts, bne, ← Number.beq_iff_place hx hy]
  | lt => simp [compareFloat, Relation.accepts, Number.lt_iff_place hx hy, compare_lt_iff_lt]
  | le => simp [compareFloat, Relation.accepts, Number.le_iff_place hx hy, compare_le_iff_le]
  | gt => simp [compareFloat, Relation.accepts, Number.lt_iff_place hy hx, compare_gt_iff_gt]
  | ge => simp [compareFloat, Relation.accepts, Number.le_iff_place hy hx, compare_ge_iff_ge]

/-- Scalars of one kind are compared as their ranks. -/
theorem scalarCompare?_rank (ha : a.Ranked owner) (hb : b.Ranked owner) {answer : Bool}
    (h : scalarCompare? r a b = some answer) : answer = r.accepts (a.rank.order b.rank) := by
  cases a with
  | null =>
    cases b with
    | null => cases r <;> cases h <;> rfl
    | _ => cases r <;> cases h
  | bool x =>
    cases b with
    | bool y => cases r <;> cases h <;> cases x <;> cases y <;> rfl
    | _ => cases r <;> cases h
  | float x =>
    cases b with
    | float y =>
      have hfloat : scalarCompare? r (float x) (float y) = some (compareFloat r x.float y.float) := by
        cases r <;> rfl
      rw [hfloat, compareFloat_place (isNaN_of_isNumber ha) (isNaN_of_isNumber hb)] at h
      cases h
      exact congrArg r.accepts (order_number "float" _ _).symm
    | _ => cases r <;> cases h
  | str x =>
    cases b with
    | str y =>
      have htext : scalarCompare? r (str x) (str y) = some (r.accepts (compare x y)) := by
        cases r with
        | eq => exact congrArg some (by rw [Bool.eq_iff_iff]; simp [Relation.accepts])
        | ne => exact congrArg some (by rw [Bool.eq_iff_iff]; simp [Relation.accepts])
        | _ => rfl
      rw [htext] at h
      cases h
      exact congrArg r.accepts (order_text "str" _ _).symm
    | _ => cases r <;> cases h
  | notImplemented => exact ha.elim
  | _ => cases b <;> cases r <;> cases h

theorem compare_cast (m n : Nat) : compare m n = compare (m : Int) n := by
  simp only [compare, compareOfLessAndEq, Int.ofNat_lt, Int.ofNat_inj]

/-- The methods of calendar values order them by their measures. -/
theorem order?_measure {t u : Temporal} {o : Ordering} (h : t.order? u = some o) :
    t.cls = u.cls ∧ o = compare t.measure u.measure := by
  cases t with
  | date x =>
    cases u with
    | date y => cases h; exact ⟨rfl, Date.order_eq_compare x y⟩
    | _ => cases h
  | datetime x =>
    cases u with
    | datetime y => cases h; exact ⟨rfl, rfl⟩
    | _ => cases h
  | time x =>
    cases u with
    | time y => cases h; exact ⟨rfl, compare_cast _ _⟩
    | _ => cases h
  | duration x =>
    cases u with
    | duration y => cases h; exact ⟨rfl, rfl⟩
    | _ => cases h
  | offset x => cases u <;> cases h

theorem rank_eq (v : Value) : ∃ n s items, v.rank = .node v.typeName n s items := by
  cases v <;> exact ⟨_, _, _, rfl⟩

/-- Values of classes with different names are in the order of these names. -/
theorem order_of_typeName (h : a.typeName ≠ b.typeName) :
    a.rank.order b.rank = compare a.typeName b.typeName := by
  obtain ⟨n, s, xs, ha⟩ := rank_eq a
  obtain ⟨n', s', ys, hb⟩ := rank_eq b
  have hne : compare a.typeName b.typeName ≠ .eq := mt compare_eq_iff_eq.mp h
  rw [ha, hb, Rank.order]
  cases hc : compare a.typeName b.typeName with
  | eq => exact absurd hc hne
  | lt | gt => rfl

/-- Calendar values without an order between them are different objects of classes with
different names. -/
theorem ranked_temporal {id id' : Identity} {t u : Temporal}
    (ha : (temporal id t).Ranked owner) (hb : (temporal id' u).Ranked owner)
    (h : t.order? u = none) : id ≠ id' ∧ t.cls.name ≠ u.cls.name := by
  have hname : t.cls.name ≠ u.cls.name := by
    cases t with
    | offset o => exact absurd rfl ha.2
    | _ =>
      cases u with
      | offset o => exact absurd rfl hb.2
      | _ => first | cases h; done | (simp [Temporal.cls, Class.name])
  refine ⟨?_, hname⟩
  rintro rfl
  exact hname (congrArg Class.name (ha.1.symm.trans hb.1))

/-- Ranked values that neither their kinds nor their methods compare are two times `None`, or
are different objects of classes with different names. -/
theorem ranked_cases (ha : a.Ranked owner) (hb : b.Ranked owner)
    (hs : scalarCompare? r a b = none) (hi : itemsOfBoth? site a b = none)
    (hc : calendarOrder? a b = none) :
    a = null ∧ b = null ∨ a.identical b = false ∧ a.typeName ≠ b.typeName := by
  cases a with
  | notImplemented | dict | nativeDict | function | lambda | method | cls | object => exact ha.elim
  | temporal id t =>
    cases b with
    | notImplemented | dict | nativeDict | function | lambda | method | cls | object =>
      exact hb.elim
    | temporal id' u =>
      obtain ⟨hid, hname⟩ := ranked_temporal ha hb hc
      exact Or.inr ⟨by simpa [identical] using hid, hname⟩
    | _ => exact Or.inr ⟨rfl, by cases t <;> simp [typeName, classOf, Temporal.cls, Class.name]⟩
  | _ =>
    cases b with
    | notImplemented | dict | nativeDict | function | lambda | method | cls | object =>
      exact hb.elim
    | temporal id' u =>
      exact Or.inr ⟨rfl, by cases u <;> simp [typeName, classOf, Temporal.cls, Class.name]⟩
    | _ =>
      first
      | exact Or.inl ⟨rfl, rfl⟩
      | cases hi; done
      | cases r <;> cases hs; done
      | exact Or.inr ⟨rfl, by simp [typeName, classOf, Class.name]⟩

/-- Where kinds and items do not decide, ranked values are compared as their ranks. -/
theorem methodAnswer_rank (ha : a.Ranked owner) (hb : b.Ranked owner)
    (hs : scalarCompare? r a b = none) (hi : itemsOfBoth? site a b = none) :
    methodAnswer r a b = r.accepts (a.rank.order b.rank) := by
  cases hc : calendarOrder? a b with
  | some o =>
    cases a with
    | temporal id t =>
      cases b with
      | temporal id' u =>
        obtain ⟨hcls, rfl⟩ := order?_measure hc
        rw [methodAnswer.eq_def, hc]
        show _ = r.accepts ((Rank.node t.cls.name _ _ _).order (.node u.cls.name _ _ _))
        rw [hcls, order_number]
      | _ => cases hc
    | _ => cases b <;> cases hc
  | none =>
    rcases ranked_cases ha hb hs hi hc with ⟨rfl, rfl⟩ | ⟨hid, hname⟩
    · cases r <;> rfl
    · have hne : compare a.typeName b.typeName ≠ .eq := mt compare_eq_iff_eq.mp hname
      rw [methodAnswer.eq_def, hc, order_of_typeName hname, hid]
      cases r with
      | eq => simp [Relation.accepts, hname]
      | ne => simp [Relation.accepts, hname]
      | _ => rfl

/-! ## The order of values -/

/-- Two values are compared as their ranks, by every comparison. -/
def ComparesRanks (host : Host) (site : Identity) (a b : Value) : Prop :=
  ∀ r, compareWith host site r a b = .ok (.bool (r.accepts (a.rank.order b.rank)))

/-- Two sequences of one kind have the order of their items. -/
theorem order_of_itemsOfBoth? {xs ys : List Value}
    (hi : itemsOfBoth? site a b = some (xs, ys)) :
    a.rank.order b.rank = Rank.orderItems (xs.map rank) (ys.map rank) := by
  rw [itemsOfBoth?.eq_def] at hi
  split at hi
  · cases hi
    rw [rank, rank, rankItems_eq_map, rankItems_eq_map, order_self_kind]
    rfl
  · split at hi
    · rename_i hx hy
      cases hi
      rw [rank_of_listItems? hx, rank_of_listItems? hy, order_self_kind]
      rfl
    · cases hi

theorem sameItems_rank {xs ys : List Value} (hlen : xs.length = ys.length)
    (h : ∀ x ∈ xs, ∀ y ∈ ys, ComparesRanks host site x y) :
    sameItems host site xs ys =
      .ok (Rank.orderItems (xs.map rank) (ys.map rank) == .eq) := by
  induction xs generalizing ys with
  | nil =>
    obtain rfl : ys = [] := List.length_eq_zero_iff.mp hlen.symm
    simp [sameItems, Rank.orderItems]
  | cons x xs ih =>
    obtain _ | ⟨y, ys⟩ := ys
    · cases hlen
    rw [sameItems, h x (by simp) y (by simp) .eq, List.map_cons, List.map_cons, Rank.orderItems,
      ih (Nat.succ.inj hlen) fun v hv w hw => h v (by simp [hv]) w (by simp [hw])]
    cases x.rank.order y.rank <;> rfl

/-- Lists of ranks of different lengths differ. -/
theorem orderItems_ne_eq {xs ys : List Rank} (h : xs.length ≠ ys.length) :
    Rank.orderItems xs ys ≠ .eq := by
  induction xs generalizing ys with
  | nil =>
    cases ys with
    | nil => exact absurd rfl h
    | cons y ys => simp [Rank.orderItems]
  | cons x xs ih =>
    cases ys with
    | nil => simp [Rank.orderItems]
    | cons y ys =>
      have htail := ih fun hlen => h (congrArg Nat.succ hlen)
      rw [Rank.orderItems]
      cases x.order y with
      | eq => exact htail
      | lt | gt => simp [Ordering.then]

theorem orderItems_rank {xs ys : List Value}
    (h : ∀ x ∈ xs, ∀ y ∈ ys, ComparesRanks host site x y) (r : Relation) :
    orderItems host site r xs ys =
      .ok (.bool (r.accepts (Rank.orderItems (xs.map rank) (ys.map rank)))) := by
  induction xs generalizing ys with
  | nil =>
    cases ys with
    | nil => simp [orderItems, Rank.orderItems]
    | cons y ys =>
      have hlt : compare 0 (ys.length + 1) = .lt := compare_lt_iff_lt.mpr (by omega)
      simp [orderItems, Rank.orderItems, hlt]
  | cons x xs ih =>
    obtain _ | ⟨y, ys⟩ := ys
    · have hgt : compare (xs.length + 1) 0 = .gt := compare_gt_iff_gt.mpr (by omega)
      simp [orderItems, Rank.orderItems, hgt]
    have hxy := h x (by simp) y (by simp)
    rw [orderItems, hxy .eq, hxy r, List.map_cons, List.map_cons, Rank.orderItems,
      ih fun v hv w hw => h v (by simp [hv]) w (by simp [hw])]
    cases x.rank.order y.rank <;> rfl

theorem compareItems_rank {xs ys : List Value} (hi : itemsOfBoth? site a b = some (xs, ys))
    (h : ∀ x ∈ xs, ∀ y ∈ ys, ComparesRanks host site x y) (r : Relation) :
    compareItems host site r xs ys = .ok (.bool (r.accepts (a.rank.order b.rank))) := by
  rw [order_of_itemsOfBoth? hi]
  by_cases hlen : xs.length = ys.length
  · cases r with
    | eq => simp [compareItems, hlen, sameItems_rank hlen h, Relation.accepts]
    | ne => simp [compareItems, hlen, sameItems_rank hlen h, Relation.accepts, bne]
    | _ => exact orderItems_rank h _
  · have hne : Rank.orderItems (xs.map rank) (ys.map rank) ≠ .eq :=
      orderItems_ne_eq (by simpa using hlen)
    cases r with
    | eq => simp [compareItems, hlen, Relation.accepts, hne]
    | ne => simp [compareItems, hlen, Relation.accepts, hne]
    | _ => exact orderItems_rank h _

theorem entriesOfBoth?_ranked (ha : a.Ranked owner) : entriesOfBoth? site a b = none := by
  cases a with
  | dict | nativeDict => exact ha.elim
  | _ => rfl

/-- Ranked values are compared as their ranks. -/
theorem compareWith_rank (host : Host) (site : Identity) (ha : a.RankedThroughout owner)
    (hb : b.RankedThroughout owner) : ComparesRanks host site a b := by
  -- the items that a comparison goes on to weigh less than the left operand
  induction hw : a.weight using Nat.strongRecOn generalizing a b with
  | _ n ih =>
    subst hw
    intro r
    rw [compareWith_eq, entriesOfBoth?_ranked ha.here]
    cases hs : scalarCompare? r a b with
    | some answer => rw [scalarCompare?_rank ha.here hb.here hs]
    | none =>
      cases hi : itemsOfBoth? site a b with
      | some both =>
        obtain ⟨xs, ys⟩ := both
        obtain ⟨hxs, hys⟩ := member_of_itemsOfBoth? hi
        refine compareItems_rank hi (fun x hx y hy => ?_) r
        have hlt := (weight_lt_of_mem hx).trans (weightItems_itemsOfBoth hi)
        exact ih x.weight hlt (ha.of_part (hxs x hx)) (hb.of_part (hys y hy)) rfl
      | none =>
        dsimp only
        rw [compareByMethods_regular ha.here.regular hb.here.regular,
          methodAnswer_rank ha.here hb.here hs hi]

/-- A comparison returns `True`. -/
def Satisfies (host : Host) (site : Identity) (r : Relation) (a b : Value) : Prop :=
  compareWith host site r a b = .ok (.bool true)

theorem satisfies_iff (ha : a.RankedThroughout owner) (hb : b.RankedThroughout owner) :
    Satisfies host site r a b ↔ r.accepts (a.rank.order b.rank) = true := by
  rw [Satisfies, compareWith_rank host site ha hb]
  simp

/-- Comparisons of scalars, sequences and calendar values never fail and return truth values.
Of `a < b`, `a == b` and `b < a` exactly one holds, `<` is transitive, and `<=` and `>=` are
what they say. -/
theorem comparisons_total (host : Host) (site : Identity) {owner : Identity → Class}
    {a b c : Value} (ha : a.RankedThroughout owner) (hb : b.RankedThroughout owner)
    (hc : c.RankedThroughout owner) :
    (∀ r, ∃ answer, compareWith host site r a b = .ok (.bool answer)) ∧
    (Satisfies host site .lt a b ∧ ¬ Satisfies host site .eq a b ∧ ¬ Satisfies host site .lt b a ∨
      ¬ Satisfies host site .lt a b ∧ Satisfies host site .eq a b ∧
        ¬ Satisfies host site .lt b a ∨
      ¬ Satisfies host site .lt a b ∧ ¬ Satisfies host site .eq a b ∧
        Satisfies host site .lt b a) ∧
    (Satisfies host site .lt a b → Satisfies host site .lt b c → Satisfies host site .lt a c) ∧
    (Satisfies host site .le a b ↔ Satisfies host site .lt a b ∨ Satisfies host site .eq a b) ∧
    (Satisfies host site .ge a b ↔ Satisfies host site .le b a) := by
  refine ⟨fun r => ⟨_, compareWith_rank host site ha hb r⟩, ?_, ?_, ?_, ?_⟩
  · simp only [satisfies_iff ha hb, satisfies_iff hb ha, Rank.order_swap a.rank b.rank]
    cases a.rank.order b.rank <;> decide
  · simp only [satisfies_iff ha hb, satisfies_iff hb hc, satisfies_iff ha hc, Relation.accepts,
      beq_iff_eq]
    exact Rank.order_trans
  · simp only [satisfies_iff ha hb]
    cases a.rank.order b.rank <;> decide
  · simp only [satisfies_iff ha hb, satisfies_iff hb ha, Rank.order_swap a.rank b.rank]
    cases a.rank.order b.rank <;> decide

def smallList : Value :=
  .nativeList .origin [.float 1.0, .str "a"]

def datedTuple : Value :=
  .tuple .origin [.temporal .origin (.date Clock.placeholderDate)]

theorem ranked_one (owner : Identity → Class) : (number 1.0).RankedThroughout owner :=
  .intro rfl fun _ hw => nomatch hw

theorem ranked_smallList (owner : Identity → Class) : smallList.RankedThroughout owner := by
  refine .intro trivial fun w hw => ?_
  rw [smallList] at hw
  cases hw with
  | nativeList _ place hj =>
    rcases List.mem_pair.mp hj with rfl | rfl
    · exact ranked_one owner
    · exact .intro trivial fun _ hw => nomatch hw

theorem ranked_datedTuple : datedTuple.RankedThroughout fun _ => .date := by
  refine .intro trivial fun w hw => ?_
  rw [datedTuple] at hw
  cases hw with
  | tuple _ hv =>
    obtain rfl := List.mem_singleton.mp hv
    exact .intro ⟨rfl, by decide⟩ fun _ hw => nomatch hw

/-- Values of three kinds are in the order of the names `float`, `list` and `tuple`. -/
theorem comparisons_total_threeKinds :
    Satisfies .idle .origin .lt (number 1.0) smallList ∧
      Satisfies .idle .origin .lt smallList datedTuple ∧
      Satisfies .idle .origin .lt (number 1.0) datedTuple := by
  have ha := ranked_one fun _ => .date
  have hb := ranked_smallList fun _ => .date
  have hc := ranked_datedTuple
  have hab : Satisfies .idle .origin .lt (number 1.0) smallList := (satisfies_iff ha hb).mpr rfl
  have hbc : Satisfies .idle .origin .lt smallList datedTuple := (satisfies_iff hb hc).mpr rfl
  obtain ⟨_, _, htrans, _⟩ := comparisons_total .idle .origin ha hb hc
  exact ⟨hab, hbc, htrans hab hbc⟩

end Value

end FilterLang
