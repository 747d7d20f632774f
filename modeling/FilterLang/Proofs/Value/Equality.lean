import FilterLang.Proofs.Calendar.Chronology
import FilterLang.Proofs.Value.Agreement
import FilterLang.Proofs.Value.Content
/-!
Equality is equality of contents.

Regular values are equal exactly when their contents are (`compareWith_eq_content`), so that
equality never fails and is an equivalence. The other comparisons are coherent with it:
`!=` is its negation, and exchanging the operands exchanges `<` with `>` and `<=` with `>=`.
-/

namespace FilterLang

open Fallible

namespace Relation

/-- Whether a comparison orders its operands; `==` and `!=` do not. -/
def isOrder : Relation → Bool
  | eq | ne => false
  | _ => true

theorem accepts_swap (r : Relation) (o : Ordering) : r.flip.accepts o.swap = r.accepts o := by
  cases r <;> cases o <;> rfl

/-- Exchanged operands satisfy the exchanged comparison of their places in an order. -/
theorem accepts_flip {α : Type} [Ord α] [Std.OrientedOrd α] (r : Relation) (x y : α) :
    r.flip.accepts (compare y x) = r.accepts (compare x y) := by
  rw [Std.OrientedOrd.eq_swap, accepts_swap]

end Relation

/-! ## Comparison by methods -/

/-- Which of two calendar values of one class is earlier or shorter. Offsets have no order. -/
def Temporal.order? : Temporal → Temporal → Option Ordering
  | date x, date y => some (x.order y)
  | datetime x, datetime y => some (DatetimeMethod.order x y)
  | time x, time y => some (compare x.micros y.micros)
  | duration x, duration y => some (compare x.micros y.micros)
  | _, _ => none

namespace Value

/-- The order that the methods of two calendar values give. -/
def calendarOrder? : Value → Value → Option Ordering
  | temporal _ t, temporal _ u => t.order? u
  | _, _ => none

variable {host : Host} {site : Identity} {owner : Identity → Class} {r : Relation} {a b c : Value}

/-- The comparison methods of a calendar value answer for values of its own class. -/
theorem askOperator_temporal (host : Host) (site : Identity) (r : Relation) (id : Identity)
    (t : Temporal) (b : Value) :
    askOperator host site (temporal id t) r.method b =
      .ok ((calendarOrder? (temporal id t) b).map fun o => .bool (r.accepts o)) := by
  have hcall (m : TemporalMethod) (v : Value)
      (hm : (temporal id t).special? host r.method = some (.temporal m))
      (hv : InstanceMethod.call host site (.temporal m) (temporal id t) [b] = .ok v) :
      askOperator host site (temporal id t) r.method b = .ok v.answer? := by
    rw [askOperator_eq, hm]
    dsimp only
    rw [hv]
    rfl
  cases t with
  | date d =>
    rw [hcall (.date (.compare r)) _ (by cases r <;> rfl) rfl]
    cases b with
    | temporal id' u => cases u <;> rfl
    | _ => rfl
  | datetime d =>
    rw [hcall (.datetime (.compare r)) _ (by cases r <;> rfl) rfl]
    cases b with
    | temporal id' u => cases u <;> rfl
    | _ => rfl
  | time d =>
    rw [hcall (.time (.compare r)) _ (by cases r <;> rfl) rfl]
    cases b with
    | temporal id' u => cases u <;> rfl
    | _ => rfl
  | duration d =>
    rw [hcall (.duration (.compare r)) _ (by cases r <;> rfl) rfl]
    cases b with
    | temporal id' u => cases u <;> rfl
    | _ => rfl
  | offset o =>
    have hnone : calendarOrder? (temporal id (.offset o)) b = none := by
      cases b with
      | temporal id' u => cases u <;> rfl
      | _ => rfl
    rw [hnone]
    cases r <;> rfl

/-- Of the regular values only calendar values have comparison methods that answer. -/
theorem askOperator_regular (ha : a.Regular owner) (site : Identity) (r : Relation) (b : Value) :
    askOperator host site a r.method b =
      .ok ((calendarOrder? a b).map fun o => .bool (r.accepts o)) := by
  cases a with
  | temporal id t => exact askOperator_temporal host site r id t b
  | object id c fields =>
    cases c <;> cases r <;> first | rfl | exact absurd rfl (ha _)
  | _ => rfl

theorem calendarOrder?_swap (a b : Value) :
    calendarOrder? b a = (calendarOrder? a b).map Ordering.swap := by
  cases a with
  | temporal id t =>
    cases b with
    | temporal id' u =>
      show u.order? t = (t.order? u).map Ordering.swap
      cases t <;> cases u <;> first | rfl | skip
      · exact congrArg some (by
          rw [Date.order_eq_compare, Date.order_eq_compare]; exact Std.OrientedOrd.eq_swap)
      · exact congrArg some (Std.OrientedOrd.eq_swap)
      · exact congrArg some (Std.OrientedOrd.eq_swap)
      · exact congrArg some (Std.OrientedOrd.eq_swap)
    | _ => rfl
  | _ => cases b <;> rfl

/-- The answer of the methods of two values, and of what stands in for them. -/
def methodAnswer (r : Relation) (a b : Value) : Bool :=
  match calendarOrder? a b, r with
  | some o, r => r.accepts o
  | none, .eq => a.identical b
  | none, .ne => !a.identical b
  | none, r => r.accepts (compare a.typeName b.typeName)

theorem compareByMethods_regular (ha : a.Regular owner) (hb : b.Regular owner) (site : Identity)
    (r : Relation) : compareByMethods host site r a b = .ok (.bool (methodAnswer r a b)) := by
  rw [compareByMethods_eq, askOperator_regular ha, askOperator_regular hb, calendarOrder?_swap a b,
    methodAnswer.eq_def]
  cases calendarOrder? a b with
  | some o => rfl
  | none => cases r <;> rfl

/-! ## Keys of values without parts -/

theorem isNaN_of_isNumber {x : Numeric} (h : x.isNumber = true) : x.float.isNaN = false := by
  rw [Numeric.isNumber, Bool.and_eq_true, Bool.not_eq_true'] at h
  exact h.1

theorem bits_of_isNumber {x : Numeric} (h : x.isNumber = true) : x.bits = x.float.toBits := by
  rw [Numeric.isNumber, Bool.and_eq_true, Bool.not_eq_true', Bool.not_eq_true'] at h
  rw [Numeric.bits, h.2]
  rfl

/-- Numbers have one key exactly when they are equal. -/
theorem ofNumber_eq_iff {x y : Numeric} (hx : x.isNumber = true) (hy : y.isNumber = true) :
    HashKey.ofNumber x = .ofNumber y ↔ (x.float == y.float) = true := by
  have hnx := isNaN_of_isNumber hx
  have hny := isNaN_of_isNumber hy
  have hzero {z : Float} (hz : z.toBits = 0) : Number.place z = 0 := by
    rw [Number.place, hz]
    rfl
  rw [HashKey.ofNumber, HashKey.ofNumber, HashKey.float.injEq, Number.beq_iff_place hnx hny,
    bits_of_isNumber hx, bits_of_isNumber hy]
  simp only [Number.beq_zero_iff_place hnx, Number.beq_zero_iff_place hny]
  by_cases h0 : Number.place x.float = 0
  · rw [if_pos h0]
    by_cases h0' : Number.place y.float = 0
    · rw [if_pos h0', h0, h0']
      simp
    · rw [if_neg h0', h0]
      exact ⟨fun h => absurd (hzero h.symm) h0', fun h => absurd h.symm h0'⟩
  · rw [if_neg h0]
    by_cases h0' : Number.place y.float = 0
    · rw [if_pos h0', h0']
      exact ⟨fun h => absurd (hzero h) h0, fun h => absurd h h0⟩
    · rw [if_neg h0']
      refine ⟨fun h => ?_, fun h => by rw [Number.eq_of_place h h0]⟩
      rw [Float.toBits_inj.mp h]

theorem isNumber_ofInt {n : Int} (h : n.natAbs ≤ 2 ^ 53) :
    (Numeric.ofFloat (Number.ofInt n)).isNumber = true := by
  have hnan : (Number.ofInt n).isNaN = false := Number.isNaN_of_toInt? (Number.toInt?_ofInt h)
  rw [Numeric.isNumber, Numeric.isNan, Numeric.ofFloat, hnan]
  rfl

theorem duration_ext {x y : Duration} (h : x.micros = y.micros) : x = y := by
  cases x
  cases y
  cases h
  rfl

/-- Calendar values that have an order are at one place of it only if they are the same. -/
theorem eq_of_order? {t u : Temporal} {o : Ordering} (h : t.order? u = some o) :
    o = .eq ↔ t = u := by
  cases t with
  | date x =>
    cases u with
    | date y =>
      cases h
      rw [Date.order_eq_compare, compare_eq_iff_eq, Temporal.date.injEq]
      exact ⟨Date.ordinal_injective, congrArg _⟩
    | _ => cases h
  | datetime x =>
    cases u with
    | datetime y =>
      cases h
      rw [DatetimeMethod.order, compare_eq_iff_eq, Temporal.datetime.injEq]
      exact ⟨DateTime.micros_injective, congrArg _⟩
    | _ => cases h
  | time x =>
    cases u with
    | time y =>
      cases h
      rw [compare_eq_iff_eq, Temporal.time.injEq]
      exact ⟨Clock.micros_injective, congrArg _⟩
    | _ => cases h
  | duration x =>
    cases u with
    | duration y =>
      cases h
      rw [compare_eq_iff_eq, Temporal.duration.injEq]
      exact ⟨duration_ext, congrArg _⟩
    | _ => cases h
  | offset x => cases u <;> cases h

/-- Calendar values that have an order have one key exactly when they are the same. -/
theorem ownKey_temporal {id id' : Identity} {t u : Temporal} {o : Ordering}
    (h : t.order? u = some o) :
    (temporal id t).ownKey = (temporal id' u).ownKey ↔ t = u := by
  cases t with
  | date x =>
    cases u with
    | date y =>
      have hx := isNumber_ofInt x.natAbs_ordinal_le
      have hy := isNumber_ofInt y.natAbs_ordinal_le
      simp only [ownKey, Temporal.hashKey?, Option.getD_some, HashKey.instanceOf.injEq, Temporal.date.injEq,
        Temporal.cls, true_and, ofNumber_eq_iff hx hy]
      rw [Number.beq_iff_place (isNaN_of_isNumber hx) (isNaN_of_isNumber hy)]
      refine ⟨fun h => Date.ordinal_injective ?_, fun h => by rw [h]⟩
      exact Number.eq_of_place_ofInt x.natAbs_ordinal_le y.natAbs_ordinal_le h
    | _ => cases h
  | datetime x =>
    cases u with
    | datetime y =>
      simp only [ownKey, Temporal.hashKey?, Option.getD_some, HashKey.instanceOf.injEq, HashKey.str.injEq,
        Temporal.datetime.injEq, Temporal.cls, true_and]
      exact ⟨DateTime.iso_injective, congrArg _⟩
    | _ => cases h
  | time x =>
    cases u with
    | time y =>
      simp only [ownKey, Temporal.hashKey?, Option.getD_some, HashKey.instanceOf.injEq, HashKey.str.injEq,
        Temporal.time.injEq, Temporal.cls, true_and]
      exact ⟨Clock.iso_injective, congrArg _⟩
    | _ => cases h
  | duration x =>
    cases u with
    | duration y =>
      simp only [ownKey, Temporal.hashKey?, Option.getD_some, HashKey.instanceOf.injEq, HashKey.str.injEq,
        Temporal.duration.injEq, Temporal.cls, true_and]
      exact ⟨fun h => duration_ext (Int.repr_injective h), fun h => by rw [h]⟩
    | _ => cases h
  | offset x => cases u <;> cases h

/-! ## Cases of a comparison -/

/-- Values without parts that are compared by their kind are compared as their contents. -/
theorem scalarEqual?_content (ha : a.Regular owner) (hb : b.Regular owner) {same : Bool}
    (h : scalarEqual? a b = some same) : same = true ↔ a.content = b.content := by
  cases a <;> cases b <;> first | cases h; done | skip
  all_goals simp only [scalarEqual?, Option.some.injEq] at h
  all_goals subst h
  · simp
  · simp
  · simp [content, ownKey]
  · simp only [content, Content.key.injEq, ownKey, ofNumber_eq_iff ha hb]
  · simp [content, ownKey]

/-- No calendar value is of a class whose instances are known by their identities alone. -/
theorem cls_ne (t : Temporal) : t.cls ≠ .function ∧ t.cls ≠ .method ∧ t.cls ≠ .object := by
  cases t <;> simp [Temporal.cls]

/-- Calendar values without an order between them are of two classes or are offsets. Offsets
are known by their identities. -/
theorem identical_temporal {id id' : Identity} {t u : Temporal} (ht : owner id = t.cls)
    (hu : owner id' = u.cls) (h : t.order? u = none) :
    id = id' ↔ (temporal id t).ownKey = (temporal id' u).ownKey := by
  rw [ownKey, ownKey, HashKey.instanceOf.injEq]
  by_cases hcls : t.cls = u.cls
  · cases t with
    | offset o =>
      cases u with
      | offset o' => simp [Temporal.hashKey?, hcls]
      | _ => cases hcls
    | _ => cases u <;> first | cases h; done | cases hcls
  · refine iff_of_false ?_ fun heq => hcls heq.1
    rintro rfl
    exact hcls (ht.symm.trans hu)

/-- Where neither kinds nor methods decide, regular values are the same object exactly when
they have one content. -/
theorem identical_content (ha : a.Regular owner) (hb : b.Regular owner)
    (hs : scalarEqual? a b = none) (hi : itemsOfBoth? site a b = none)
    (he : entriesOfBoth? site a b = none) (hc : calendarOrder? a b = none) :
    a.identical b = true ↔ a.content = b.content := by
  cases a with
  | temporal id t =>
    obtain ⟨hf, hm, ho⟩ := cls_ne t
    cases b with
    | temporal id' u =>
      simp only [identical, content, Content.key.injEq, beq_iff_eq]
      exact identical_temporal ha hb hc
    | _ => simp [identical, content, ownKey, HashKey.ofNumber, hf, hm, ho]
  | _ =>
    cases b with
    | temporal id' u =>
      obtain ⟨hf, hm, ho⟩ := cls_ne u
      simp [identical, content, ownKey, HashKey.ofNumber, hf.symm, hm.symm, ho.symm]
    | _ =>
      -- values of two kinds have different contents, and of one kind the same parts
      first
      | cases hs; done
      | cases hi; done
      | cases he; done
      | simp [identical, content, ownKey, HashKey.ofNumber]

/-! ## Equality -/

/-- The parts of a value that comparisons reach are regular, the value itself included. -/
abbrev RegularThroughout (owner : Identity → Class) (v : Value) : Prop :=
  v.Throughout Member (Regular owner)

/-- Two sequences of one kind have one content when their items have. -/
theorem content_of_itemsOfBoth? {xs ys : List Value}
    (hi : itemsOfBoth? site a b = some (xs, ys)) :
    a.content = b.content ↔ xs.map content = ys.map content := by
  rw [itemsOfBoth?.eq_def] at hi
  split at hi
  · cases hi
    simp only [content, contentItems_eq_map, Content.tuple.injEq]
  · split at hi
    · rename_i hx hy
      cases hi
      rw [content_of_listItems? hx, content_of_listItems? hy, Content.list.injEq]
    · cases hi

/-- A comparison answers a question: it does not fail, and what it returns is whether a
statement holds. -/
def Answers (x : Outcome Value) (p : Prop) : Prop :=
  ∃ answer, x = .ok (.bool answer) ∧ (answer = true ↔ p)

namespace Answers

variable {x y : Outcome Value} {p q : Prop}

theorem cases (h : Answers x p) : p ∧ x = .ok (.bool true) ∨ ¬ p ∧ x = .ok (.bool false) := by
  obtain ⟨answer, hx, hp⟩ := h
  cases answer with
  | true => exact Or.inl ⟨hp.mp rfl, hx⟩
  | false => exact Or.inr ⟨mt hp.mpr Bool.false_ne_true, hx⟩

theorem congr (h : Answers x p) (hpq : p ↔ q) : Answers x q := by
  obtain ⟨answer, hx, hp⟩ := h
  exact ⟨answer, hx, hp.trans hpq⟩

theorem true_iff (h : Answers x p) : x = .ok (.bool true) ↔ p := by
  rcases h.cases with ⟨hp, hx⟩ | ⟨hp, hx⟩
  · simp [hp, hx]
  · simp [hp, hx]

/-- Comparisons that answer the same question have the same outcome. -/
theorem unique (h : Answers x p) (h' : Answers y p) : x = y := by
  rcases h.cases with ⟨hp, hx⟩ | ⟨hp, hx⟩
  · rw [hx, h'.true_iff.mpr hp]
  · rcases h'.cases with ⟨hp', hy⟩ | ⟨_, hy⟩
    · exact absurd hp' hp
    · rw [hx, hy]

end Answers

/-- Two values are compared for equality by their contents. -/
def EqualByContent (host : Host) (site : Identity) (a b : Value) : Prop :=
  Answers (compareWith host site .eq a b) (a.content = b.content)

/-- Items in the same places are compared by their contents. -/
theorem sameItems_content {xs ys : List Value} (hlen : xs.length = ys.length)
    (h : ∀ x ∈ xs, ∀ y ∈ ys, EqualByContent host site x y) :
    ∃ same, sameItems host site xs ys = .ok same ∧
      (same = true ↔ xs.map content = ys.map content) := by
  induction xs generalizing ys with
  | nil =>
    obtain rfl : ys = [] := List.length_eq_zero_iff.mp hlen.symm
    exact ⟨true, by simp [sameItems], by simp⟩
  | cons x xs ih =>
    obtain _ | ⟨y, ys⟩ := ys
    · cases hlen
    rw [sameItems, List.map_cons, List.map_cons, List.cons.injEq]
    rcases (h x (by simp) y (by simp)).cases with ⟨hc, hx⟩ | ⟨hc, hx⟩
    · obtain ⟨same, hsame, hiff⟩ := ih (Nat.succ.inj hlen) fun v hv w hw =>
        h v (by simp [hv]) w (by simp [hw])
      exact ⟨same, by rw [hx]; exact hsame, by rw [hiff]; simp [hc]⟩
    · exact ⟨false, by rw [hx]; rfl, by simp [hc]⟩

/-- A dict holds the entries of another when it has their contents under their hash keys. -/
theorem sameEntries_content {r r' : Records} (hr : ∀ e ∈ r, e.key.hashKey host site = .ok e.hash)
    (hb : b.Recorded site r')
    (h : ∀ e ∈ r, ∀ w, b.Member w → EqualByContent host site e.value w) :
    ∃ same, sameEntries host site r.pairs b = .ok same ∧
      (same = true ↔ ∀ e ∈ r, (r'.find? e.hash).map content = some e.value.content) := by
  induction r with
  | nil => exact ⟨true, by simp [sameEntries, Records.pairs], by simp⟩
  | cons e r ih =>
    obtain ⟨found, hfound, hcontent, hmember⟩ := hb.lookup (hr e (by simp))
    rw [Records.pairs_cons, sameEntries, hfound, ok_bind, List.forall_mem_cons, ← hcontent]
    cases found with
    | none => exact ⟨false, rfl, by simp⟩
    | some w =>
      rcases (h e (by simp) w (hmember w rfl)).cases with ⟨hc, hx⟩ | ⟨hc, hx⟩
      · obtain ⟨same, hsame, hiff⟩ := ih (fun f hf => hr f (by simp [hf]))
          fun f hf => h f (by simp [hf])
        exact ⟨same, by dsimp only; rw [hx]; exact hsame, by rw [hiff]; simp [hc]⟩
      · exact ⟨false, by dsimp only; rw [hx]; rfl, by simp [Ne.symm hc]⟩

/-- Two regular dicts that are compared entry by entry have records. -/
theorem entriesOfBoth?_recorded (ha : a.Regular owner) (hb : b.Regular owner)
    {pairs : List (Value × Value)} (he : entriesOfBoth? site a b = some pairs) :
    ∃ r r' : Records, (a.Recorded site r ∧ r.Indexed) ∧ (b.Recorded site r' ∧ r'.Indexed) ∧
      pairs = r.pairs := by
  rw [entriesOfBoth?] at he
  cases hpairs : a.entries? site with
  | none => rw [hpairs] at he; cases he
  | some xs =>
    cases hpairs' : b.entries? site with
    | none => rw [hpairs, hpairs'] at he; cases he
    | some ys =>
      rw [hpairs, hpairs'] at he
      cases he
      obtain ⟨r, hr, hindexed, hxs⟩ := ha.recorded hpairs
      obtain ⟨r', hr', hindexed', -⟩ := hb.recorded hpairs'
      exact ⟨r, r', ⟨hr, hindexed⟩, ⟨hr', hindexed'⟩, hxs⟩

/-- Two sequences are compared by their contents when their items are. -/
theorem compareItems_content {xs ys : List Value} (hi : itemsOfBoth? site a b = some (xs, ys))
    (h : ∀ x ∈ xs, ∀ y ∈ ys, EqualByContent host site x y) :
    Answers (compareItems host site .eq xs ys) (a.content = b.content) := by
  rw [content_of_itemsOfBoth? hi, compareItems]
  by_cases hlen : xs.length = ys.length
  · obtain ⟨same, hsame, hiff⟩ := sameItems_content hlen h
    rw [if_pos hlen, hsame]
    exact ⟨same, rfl, hiff⟩
  · rw [if_neg hlen]
    refine ⟨false, rfl, iff_of_false Bool.false_ne_true fun heq => hlen ?_⟩
    simpa using congrArg List.length heq

/-- Two dicts are compared by their contents when their values are. -/
theorem compareEntries_content (ha : a.Regular owner) (hb : b.Regular owner)
    {pairs : List (Value × Value)} (he : entriesOfBoth? site a b = some pairs)
    (h : ∀ p ∈ pairs, ∀ w, b.Member w → EqualByContent host site p.2 w) :
    Answers (compareEntries host site .eq pairs a b) (a.content = b.content) := by
  obtain ⟨r, r', ⟨hr, hindexed⟩, ⟨hr', hindexed'⟩, rfl⟩ := entriesOfBoth?_recorded ha hb he
  rw [hr.content, hr'.content, Content.dict.injEq,
    ← find?_congr_iff hindexed.distinct hindexed'.distinct, compareEntries, hr'.len, ok_bind,
    Records.length_pairs]
  by_cases hlen : r.length = r'.length
  · obtain ⟨same, hsame, hiff⟩ := sameEntries_content (fun e he => hindexed.hash e he host site) hr'
      fun e he => h (e.key, e.value) (List.mem_map_of_mem he)
    rw [if_pos hlen, hsame]
    exact ⟨same, rfl, by rw [hiff]; simp [hlen]⟩
  · rw [if_neg hlen]
    exact ⟨false, rfl, by simp [hlen]⟩

/-- Values that neither their kinds nor the items and entries in them decide are compared by
their contents. -/
theorem compareByMethods_content (ha : a.Regular owner) (hb : b.Regular owner)
    (hs : scalarEqual? a b = none) (hi : itemsOfBoth? site a b = none)
    (he : entriesOfBoth? site a b = none) :
    Answers (compareByMethods host site .eq a b) (a.content = b.content) := by
  refine ⟨methodAnswer .eq a b, compareByMethods_regular ha hb site .eq, ?_⟩
  cases hc : calendarOrder? a b with
  | none =>
    rw [methodAnswer.eq_def, hc]
    exact identical_content ha hb hs hi he hc
  | some o =>
    rw [methodAnswer.eq_def, hc]
    cases a with
    | temporal id t =>
      cases b with
      | temporal id' u =>
        simp only [content, Content.key.injEq, ownKey_temporal hc, ← eq_of_order? hc]
        simp [Relation.accepts]
      | _ => cases hc
    | _ => cases b <;> cases hc

/-- Regular values are equal exactly when their contents are. -/
theorem compareWith_eq_content (host : Host) (site : Identity) (ha : a.RegularThroughout owner)
    (hb : b.RegularThroughout owner) : EqualByContent host site a b := by
  -- the members that a comparison goes on to weigh less than the left operand
  induction hw : a.weight using Nat.strongRecOn generalizing a b with
  | _ n ih =>
    subst hw
    rw [EqualByContent, compareWith_eq]
    cases hs : scalarCompare? .eq a b with
    | some same => exact ⟨same, rfl, scalarEqual?_content ha.here hb.here hs⟩
    | none =>
      cases hi : itemsOfBoth? site a b with
      | some both =>
        obtain ⟨xs, ys⟩ := both
        obtain ⟨hxs, hys⟩ := member_of_itemsOfBoth? hi
        refine compareItems_content hi fun x hx y hy => ?_
        have hlt := (weight_lt_of_mem hx).trans (weightItems_itemsOfBoth hi)
        exact ih x.weight hlt (ha.of_part (hxs x hx)) (hb.of_part (hys y hy)) rfl
      | none =>
        cases he : entriesOfBoth? site a b with
        | some pairs =>
          refine compareEntries_content ha.here hb.here he fun p hp w hmember => ?_
          have hlt := (weight_snd_lt_of_mem hp).trans (weightPairs_entriesOfBoth he)
          obtain ⟨r, _, ⟨hr, -⟩, -, rfl⟩ := entriesOfBoth?_recorded ha.here hb.here he
          obtain ⟨e, hmem, rfl⟩ := List.mem_map.mp hp
          exact ih e.value.weight hlt (ha.of_part (hr.member hmem)) (hb.of_part hmember) rfl
        | none => exact compareByMethods_content ha.here hb.here hs hi he

/-! ## Inequality -/

theorem methodAnswer_ne (a b : Value) : methodAnswer .ne a b = !methodAnswer .eq a b := by
  rw [methodAnswer.eq_def, methodAnswer.eq_def]
  cases calendarOrder? a b <;> rfl

/-- Where a sequence or a dict of matching size is compared, `!=` negates what `==` returns. -/
theorem answers_not {x : Outcome Bool} {p : Prop}
    (h : Answers (x >>= fun same => .ok (.bool same)) p) :
    Answers (x >>= fun same => .ok (.bool !same)) (¬ p) := by
  obtain ⟨answer, hx, hp⟩ := h
  obtain ⟨same, rfl, hsame⟩ := bind_eq_ok.mp hx
  cases hsame
  exact ⟨!answer, rfl, by rw [← hp]; simp⟩

/-- `!=` is the negation of `==`. -/
theorem compareWith_ne (ha : a.Regular owner) (hb : b.Regular owner) {p : Prop}
    (h : Answers (compareWith host site .eq a b) p) :
    Answers (compareWith host site .ne a b) (¬ p) := by
  rw [compareWith_eq] at h ⊢
  have hscalar : scalarCompare? .ne a b = (scalarCompare? .eq a b).map (!·) := rfl
  rw [hscalar]
  cases hs : scalarCompare? .eq a b with
  | some same =>
    rw [hs] at h
    exact answers_not (x := .ok same) h
  | none =>
    cases hi : itemsOfBoth? site a b with
    | some both =>
      obtain ⟨xs, ys⟩ := both
      simp only [hs, hi, Option.map_none, compareItems] at h ⊢
      by_cases hlen : xs.length = ys.length
      · rw [if_pos hlen] at h ⊢
        exact answers_not h
      · rw [if_neg hlen] at h ⊢
        exact answers_not (x := .ok false) h
    | none =>
      cases he : entriesOfBoth? site a b with
      | some pairs =>
        obtain ⟨r, r', -, ⟨hr', -⟩, rfl⟩ := entriesOfBoth?_recorded ha hb he
        simp only [hs, hi, he, Option.map_none, compareEntries, hr'.len, ok_bind] at h ⊢
        by_cases hlen : r.pairs.length = r'.length
        · rw [if_pos hlen] at h ⊢
          exact answers_not h
        · rw [if_neg hlen] at h ⊢
          exact answers_not (x := .ok false) h
      | none =>
        simp only [hs, hi, he, Option.map_none, compareByMethods_regular ha hb,
          methodAnswer_ne] at h ⊢
        exact answers_not (x := .ok (methodAnswer .eq a b)) h

/-! ## Exchanged operands -/

/-- Comparisons that order their operands go by kinds and by items, and leave dicts to
methods. -/
theorem compareWith_order (hr : r.isOrder = true) (host : Host) (site : Identity) (a b : Value) :
    compareWith host site r a b =
      match scalarCompare? r a b with
      | some answer => .ok (.bool answer)
      | none =>
        match itemsOfBoth? site a b with
        | some (xs, ys) => orderItems host site r xs ys
        | none => compareByMethods host site r a b := by
  rw [compareWith_eq]
  cases r with
  | eq | ne => cases hr
  | _ => cases entriesOfBoth? site a b <;> rfl

theorem scalarCompare?_flip (hr : r.isOrder = true) (a b : Value) :
    scalarCompare? r.flip b a = scalarCompare? r a b := by
  cases a with
  | bool x =>
    cases b with
    | bool y =>
      have h := r.accepts_flip x y
      cases r <;> first | cases hr; done | exact congrArg some h
    | _ => cases r <;> first | cases hr; done | rfl
  | str x =>
    cases b with
    | str y =>
      have h := r.accepts_flip x y
      cases r <;> first | cases hr; done | exact congrArg some h
    | _ => cases r <;> first | cases hr; done | rfl
  | _ => cases b <;> cases r <;> first | cases hr; done | rfl

theorem itemsOfBoth?_swap (site : Identity) (a b : Value) :
    itemsOfBoth? site b a = (itemsOfBoth? site a b).map Prod.swap := by
  cases a <;> cases b <;> rfl

theorem methodAnswer_flip (hr : r.isOrder = true) (a b : Value) :
    methodAnswer r.flip b a = methodAnswer r a b := by
  rw [methodAnswer.eq_def, methodAnswer.eq_def, calendarOrder?_swap a b]
  cases calendarOrder? a b with
  | some o => exact r.accepts_swap o
  | none =>
    have h := r.accepts_flip a.typeName b.typeName
    cases r with
    | eq | ne => cases hr
    | _ => exact h

/-- Lists are ordered the other way round when their items are. -/
theorem orderItems_flip {xs ys : List Value}
    (h : ∀ x ∈ xs, ∀ y ∈ ys, EqualByContent host site x y ∧ EqualByContent host site y x ∧
      compareWith host site r.flip y x = compareWith host site r x y) :
    orderItems host site r.flip ys xs = orderItems host site r xs ys := by
  induction xs generalizing ys with
  | nil =>
    have hlen := r.accepts_flip ([] : List Value).length ys.length
    cases ys <;> simpa [orderItems] using hlen
  | cons x xs ih =>
    obtain _ | ⟨y, ys⟩ := ys
    · have hlen := r.accepts_flip (x :: xs).length ([] : List Value).length
      simpa [orderItems] using hlen
    obtain ⟨hxy, hyx, hr⟩ := h x (by simp) y (by simp)
    have htail : orderItems host site r.flip ys xs = orderItems host site r xs ys :=
      ih fun v hv w hw => h v (by simp [hv]) w (by simp [hw])
    have hequal : compareWith host site .eq y x = compareWith host site .eq x y :=
      Answers.unique (hyx.congr eq_comm) hxy
    rw [orderItems, orderItems, hequal, htail, hr]

/-- Exchanging the operands exchanges `<` with `>` and `<=` with `>=`. -/
theorem compareWith_flip (host : Host) (site : Identity) (hr : r.isOrder = true)
    (ha : a.RegularThroughout owner) (hb : b.RegularThroughout owner) :
    compareWith host site r.flip b a = compareWith host site r a b := by
  have hflip : r.flip.isOrder = true := by cases r <;> first | cases hr; done | rfl
  induction hw : a.weight using Nat.strongRecOn generalizing a b with
  | _ n ih =>
    subst hw
    rw [compareWith_order hr, compareWith_order hflip, scalarCompare?_flip hr,
      itemsOfBoth?_swap site a b, compareByMethods_regular ha.here hb.here,
      compareByMethods_regular hb.here ha.here, methodAnswer_flip hr]
    cases scalarCompare? r a b with
    | some answer => rfl
    | none =>
      cases hi : itemsOfBoth? site a b with
      | none => rfl
      | some both =>
        obtain ⟨xs, ys⟩ := both
        obtain ⟨hxs, hys⟩ := member_of_itemsOfBoth? hi
        refine orderItems_flip fun x hx y hy => ?_
        have hlt := (weight_lt_of_mem hx).trans (weightItems_itemsOfBoth hi)
        have hx := ha.of_part (hxs x hx)
        have hy := hb.of_part (hys y hy)
        exact ⟨compareWith_eq_content host site hx hy, compareWith_eq_content host site hy hx,
          ih x.weight hlt hx hy rfl⟩

/-! ## Coherence -/

theorem equals_eq_ok_true (ha : a.RegularThroughout owner) (hb : b.RegularThroughout owner) :
    a.equals host site b = .ok true ↔ a.content = b.content := by
  rcases (compareWith_eq_content host site ha hb).cases with ⟨hc, hx⟩ | ⟨hc, hx⟩
  · rw [equals, hx]
    simp [hc, isTruthy]
  · rw [equals, hx]
    simp [hc, isTruthy]

/-- Among values of the built-in kinds and of the calendar, equality never fails and is an
equivalence, `!=` is its negation, and `<` and `<=` are `>` and `>=` of the exchanged
operands. -/
theorem comparisons_coherent (host : Host) (site : Identity) {owner : Identity → Class}
    {a b c : Value} (ha : a.RegularThroughout owner) (hb : b.RegularThroughout owner)
    (hc : c.RegularThroughout owner) :
    (∃ same, compareWith host site .eq a b = .ok (.bool same) ∧
      compareWith host site .ne a b = .ok (.bool !same)) ∧
    a.equals host site a = .ok true ∧
    (a.equals host site b = .ok true → b.equals host site a = .ok true) ∧
    (a.equals host site b = .ok true → b.equals host site c = .ok true →
      a.equals host site c = .ok true) ∧
    compareWith host site .lt a b = compareWith host site .gt b a ∧
    compareWith host site .le a b = compareWith host site .ge b a := by
  have hequal := compareWith_eq_content host site ha hb
  refine ⟨?_, ?_, ?_, ?_, (compareWith_flip host site rfl ha hb).symm,
    (compareWith_flip host site rfl ha hb).symm⟩
  · rcases hequal.cases with ⟨hp, hx⟩ | ⟨hp, hx⟩
    · refine ⟨true, hx, ?_⟩
      rcases (compareWith_ne ha.here hb.here hequal).cases with ⟨hn, _⟩ | ⟨_, hy⟩
      · exact absurd hp hn
      · exact hy
    · exact ⟨false, hx, (compareWith_ne ha.here hb.here hequal).true_iff.mpr hp⟩
  · exact (equals_eq_ok_true ha ha).mpr rfl
  · rw [equals_eq_ok_true ha hb, equals_eq_ok_true hb ha]
    exact Eq.symm
  · rw [equals_eq_ok_true ha hb, equals_eq_ok_true hb hc, equals_eq_ok_true ha hc]
    exact Eq.trans

def orderedRecord : Records :=
  [⟨.str "a", .str "a", .list .origin [.bool true]⟩, ⟨.str "b", .str "b", .null⟩]

def orderedDict : Value :=
  .dict .origin orderedRecord.dict

/-- The same dict from outside, with its members in another order. -/
def reorderedDict : Value :=
  .nativeDict .origin [("b", .null), ("a", .array [.bool true])]

def firstDay : Value :=
  .temporal .origin (.date Clock.placeholderDate)

theorem regular_null (owner : Identity → Class) : null.RegularThroughout owner :=
  .intro trivial fun _ hw => nomatch hw

theorem regular_true (owner : Identity → Class) : (bool true).RegularThroughout owner :=
  .intro trivial fun _ hw => nomatch hw

theorem regular_orderedDict (owner : Identity → Class) : orderedDict.RegularThroughout owner := by
  have hlist : (list .origin [.bool true]).RegularThroughout owner := by
    refine .intro trivial fun w hw => ?_
    cases hw with
    | list _ hv =>
      obtain rfl := List.mem_singleton.mp hv
      exact regular_true owner
  refine .intro ⟨orderedRecord, rfl, ?_, by decide⟩ fun w hw => ?_
  · rintro e he host site
    rcases List.mem_pair.mp he with rfl | rfl <;> rfl
  · rw [orderedDict] at hw
    cases hw with
    | dict _ he =>
      rcases List.mem_pair.mp he with rfl | rfl
      · exact hlist
      · exact regular_null owner

theorem regular_reorderedDict (owner : Identity → Class) :
    reorderedDict.RegularThroughout owner := by
  have hlist (site : Identity) : (nativeList site [.bool true]).RegularThroughout owner := by
    refine .intro trivial fun w hw => ?_
    cases hw with
    | nativeList _ place hj =>
      obtain rfl := List.mem_singleton.mp hj
      exact regular_true owner
  have hnames : ["b", "a"].Nodup := by decide
  refine .intro hnames fun w hw => ?_
  rw [reorderedDict] at hw
  cases hw with
  | nativeDict _ place hm =>
    rcases List.mem_pair.mp hm with rfl | rfl
    · exact regular_null owner
    · exact hlist place

theorem regular_firstDay : firstDay.RegularThroughout fun _ => .date :=
  .intro rfl fun _ hw => nomatch hw

theorem content_reorderedDict : orderedDict.content = reorderedDict.content := by
  have hrecord : orderedDict.Recorded .origin orderedRecord := .dict _ _
  have hmembers : reorderedDict.Recorded .origin _ := .nativeDict _ _
  rw [hrecord.content, hmembers.content]
  refine congrArg Content.dict ((find?_congr_iff (by decide) (by decide)).mp ⟨rfl, fun e he => ?_⟩)
  rcases List.mem_pair.mp he with rfl | rfl <;> rfl

theorem comparisons_coherent_reordered :
    orderedDict.equals .idle .origin reorderedDict = .ok true ∧
      reorderedDict.equals .idle .origin orderedDict = .ok true ∧
      compareWith .idle .origin .lt orderedDict reorderedDict =
        compareWith .idle .origin .gt reorderedDict orderedDict := by
  have ha := regular_orderedDict fun _ => .date
  have hb := regular_reorderedDict fun _ => .date
  have hequal : orderedDict.equals .idle .origin reorderedDict = .ok true :=
    (equals_eq_ok_true ha hb).mpr content_reorderedDict
  obtain ⟨_, _, hsymm, _, hlt, _⟩ := comparisons_coherent .idle .origin ha hb regular_firstDay
  exact ⟨hequal, hsymm hequal, hlt⟩

end Value

end FilterLang
