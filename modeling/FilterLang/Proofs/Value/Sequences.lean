import FilterLang.Expr.Eval
import FilterLang.Proofs.Number.Nearest
import FilterLang.Proofs.Value.Content
import FilterLang.Proofs.Value.Methods
/-!
The interfaces of sequences agree.

A text, a tuple, a list and an array from outside have elements. Their length, their truth, their
items under an index, what they contain, count and find, and what they are copied to is all told
from these elements (`sequence_interfaces_agree`). A part of an array from outside is the same part
wherever it is reached, but a value of its own each time (`Twin`).
-/

namespace FilterLang.Value

open Fallible

variable {host : Host} {site : Identity} {runBody : Expr → Table Value → Outcome Value}
  {v : Value} {xs : List Value}

/-! ## Elements -/

theorem twins_refl (xs : List Value) : List.Forall₂ Twin xs xs :=
  List.forall₂_same.mpr fun v _ => .refl v

theorem twins_ofItems (here there : Identity) (items : List Json) :
    List.Forall₂ Twin (ofItems here items) (ofItems there items) := by
  rw [List.forall₂_iff_get]
  refine ⟨by simp [ofItems], fun i h h' => ?_⟩
  simp only [ofItems, List.get_eq_getElem, List.getElem_mapIdx]
  exact .part _ _ _

/-- Sequences have elements. -/
theorem iterate_of_isSequence (hv : v.isSequence = true) (site : Identity) :
    ∃ xs, v.iterate site = .ok xs := by
  cases v with
  | str | tuple | list | nativeList => exact ⟨_, rfl⟩
  | _ => cases hv

/-! ## Length and truth -/

/-- The length and the truth of a sequence with elements `xs`. -/
structure Measured (host : Host) (site : Identity)
    (runBody : Expr → Table Value → Outcome Value) (v : Value) (xs : List Value) : Prop where
  length : v.len host site = .ok xs.length
  lengthCall : (function .len).callWith host site runBody [v] [] = .ok (.int xs.length)
  truth : v.isTruthy host site = .ok (decide (0 < xs.length))

theorem len_of_iterate (hv : v.isSequence = true) (h : v.iterate site = .ok xs) :
    v.len host site = .ok xs.length := by
  cases v with
  | str s =>
    cases h
    rw [len, List.length_map, String.length_toList]
  | tuple | list => cases h; rfl
  | nativeList id items =>
    cases h
    rw [len, ofItems, List.length_mapIdx]
  | _ => cases hv

theorem isTruthy_of_iterate (hv : v.isSequence = true) (h : v.iterate site = .ok xs) :
    v.isTruthy host site = .ok (decide (0 < xs.length)) := by
  have hempty {α : Type} (l : List α) : (!l.isEmpty) = decide (0 < l.length) := by
    cases l <;> rfl
  cases v with
  | str s =>
    cases h
    have hs : s.isEmpty = s.toList.isEmpty := by
      rw [Bool.eq_iff_iff, String.isEmpty_iff, List.isEmpty_iff, String.toList_eq_nil_iff]
    rw [isTruthy, List.length_map, ← hempty, hs]
  | tuple | list => cases h; exact congrArg Except.ok (hempty _)
  | nativeList id items =>
    cases h
    rw [isTruthy, ofItems, List.length_mapIdx, hempty]
  | _ => cases hv

theorem measured_of_iterate (hv : v.isSequence = true) (h : v.iterate site = .ok xs) :
    v.Measured host site runBody xs := by
  have hlen : v.len host site = .ok xs.length := len_of_iterate hv h
  refine ⟨hlen, ?_, isTruthy_of_iterate hv h⟩
  rw [callWith_len, hlen]
  rfl

/-! ## Items -/

/-- The whole number that a number or a truth value is exactly. -/
def whole? : Value → Option Int
  | float x => Number.toInt? x.float
  | bool b => some (if b then 1 else 0)
  | _ => none

/-- Indices are whole numbers of 64 bits, the nearest where they are beyond these. -/
theorem integer?_eq_whole? (index : Value) :
    index.integer? = index.whole?.map (Number.clamp 64) := by
  cases index with
  | bool b => cases b <;> rfl
  | _ => rfl

/-- A whole number of 64 bits is kept; one beyond these becomes the last of them on its side. -/
theorem clamp_cases (i : Int) :
    Number.clamp 64 i = i ∨ i < -2 ^ 63 ∧ Number.clamp 64 i = -2 ^ 63 ∨
      2 ^ 63 ≤ i ∧ Number.clamp 64 i = 2 ^ 63 - 1 := by
  have hbound : (Number.pow2 (64 - 1) : Int) = 2 ^ 63 := by decide
  rw [Number.clamp, hbound]
  split
  · omega
  · split <;> omega

section Place

variable {sequence : String} {n : Nat} {index : Value} {i : Int}

/-- The place that an index of 64 bits means. -/
theorem place_of_integer (h : index.integer? = some i) :
    place sequence n index =
      if 0 ≤ i ∧ i < n then .ok i.toNat
      else if -(n : Int) ≤ i ∧ i < 0 then .ok (i + n).toNat
      else .error (.index sequence) := by
  rw [place, h]
  dsimp only
  by_cases hneg : i < 0
  · rw [if_pos hneg, if_neg (c := 0 ≤ i ∧ i < n) (by omega)]
    exact if_congr (by omega) rfl rfl
  · rw [if_neg hneg, if_neg (c := -(n : Int) ≤ i ∧ i < 0) (by omega)]

/-- The place that a whole number means in a sequence that has a length of 64 bits: one beyond 64
bits is outside, as is the one that it becomes. -/
theorem place_of_whole (h : index.whole? = some i) (hn : n < 2 ^ 63) :
    place sequence n index =
      if 0 ≤ i ∧ i < n then .ok i.toNat
      else if -(n : Int) ≤ i ∧ i < 0 then .ok (i + n).toNat
      else .error (.index sequence) := by
  have hinteger : index.integer? = some (Number.clamp 64 i) := by
    rw [integer?_eq_whole?, h]
    rfl
  rw [place_of_integer hinteger]
  rcases clamp_cases i with hc | ⟨hi, hc⟩ | ⟨hi, hc⟩
  · rw [hc]
  · rw [hc, if_neg (by omega), if_neg (by omega), if_neg (by omega), if_neg (by omega)]
  · rw [hc, if_neg (by omega), if_neg (by omega), if_neg (by omega), if_neg (by omega)]

theorem place_of_not_whole (h : index.whole? = none) :
    place sequence n index = .error (.type (.indexKind sequence index.typeName)) := by
  rw [place, integer?_eq_whole?, h]
  rfl

theorem place_lt {j : Nat} (h : place sequence n index = .ok j) : j < n := by
  cases hi : index.integer? with
  | none =>
    rw [place, hi] at h
    cases h
  | some i =>
    rw [place_of_integer hi] at h
    split at h
    · obtain rfl := Except.ok.inj h
      omega
    · split at h
      · obtain rfl := Except.ok.inj h
        omega
      · cases h

/-- An item is picked at the place that an index means. -/
theorem pick_related {α : Type} (sequence : String) (items : List α) (index : Value) :
    Related (fun a j => items[j]? = some a) (pick sequence items index)
      (place sequence items.length index) := by
  unfold pick
  cases hp : place sequence items.length index with
  | error e => exact .failed e
  | ok j =>
    have hj := List.getElem?_eq_getElem (place_lt hp)
    rw [ok_bind, hj]
    exact .succeeded hj

end Place

/-- What a sequence gives for an index is the element at the place that the index means. -/
theorem getItem_related (host : Host) (hv : v.isSequence = true) (h : v.iterate site = .ok xs)
    (index : Value) :
    ∃ sequence, Related (fun w j => ∃ x, xs[j]? = some x ∧ w.Twin x)
      (v.getItem host site index) (place sequence xs.length index) := by
  cases v with
  | str s =>
    cases h
    refine ⟨"str", ?_⟩
    rw [List.length_map, ← bind_pure (place _ _ _)]
    refine (pick_related _ _ _).bind fun c j hc => .succeeded ?_
    exact ⟨_, by rw [List.getElem?_map, hc]; rfl, .refl _⟩
  | tuple id items =>
    cases h
    exact ⟨"tuple", (pick_related _ _ _).imp fun a j ha => ⟨a, ha, .refl a⟩⟩
  | list id items =>
    cases h
    exact ⟨"list", (pick_related _ _ _).imp fun a j ha => ⟨a, ha, .refl a⟩⟩
  | nativeList id items =>
    cases h
    refine ⟨"list", ?_⟩
    rw [ofItems, List.length_mapIdx, ← bind_pure (place _ _ _)]
    refine (pick_related _ _ _).bind fun part j hpart => .succeeded ?_
    exact ⟨_, by rw [List.getElem?_mapIdx, hpart]; rfl, .part _ _ _⟩
  | _ => cases hv

/-- The items of a sequence with elements `xs`, by their indices. -/
structure Subscripted (host : Host) (site : Identity) (v : Value) (xs : List Value) : Prop where
  front : ∀ index (i : Int), index.whole? = some i → 0 ≤ i → i < xs.length →
    ∃ w x, v.getItem host site index = .ok w ∧ xs[i.toNat]? = some x ∧ w.Twin x
  back : ∀ index (i : Int), index.whole? = some i → -(xs.length : Int) ≤ i → i < 0 →
    ∃ w x, v.getItem host site index = .ok w ∧ xs[(xs.length + i).toNat]? = some x ∧ w.Twin x
  outside : ∀ index (i : Int), index.whole? = some i → i < -(xs.length : Int) ∨ xs.length ≤ i →
    ∃ sequence, v.getItem host site index = .error (.index sequence)
  kind : ∀ index, index.whole? = none →
    ∃ message, v.getItem host site index = .error (.type message)

theorem subscripted_of_iterate (hv : v.isSequence = true) (h : v.iterate site = .ok xs)
    (hfit : xs.length < 2 ^ 63) : v.Subscripted host site xs := by
  -- what the place is decides what the item is
  have hok {index : Value} {j : Nat}
      (hplace : ∀ sequence, place sequence xs.length index = .ok j) :
      ∃ w x, v.getItem host site index = .ok w ∧ xs[j]? = some x ∧ w.Twin x := by
    obtain ⟨sequence, hitem⟩ := getItem_related host hv h index
    rw [hplace] at hitem
    generalize hw : v.getItem host site index = outcome at hitem
    cases hitem with
    | succeeded hx =>
      obtain ⟨x, hx, htwin⟩ := hx
      exact ⟨_, x, rfl, hx, htwin⟩
  have herror {index : Value} {e : String → EvalError}
      (hplace : ∀ sequence, place sequence xs.length index = .error (e sequence)) :
      ∃ sequence, v.getItem host site index = .error (e sequence) := by
    obtain ⟨sequence, hitem⟩ := getItem_related host hv h index
    rw [hplace] at hitem
    refine ⟨sequence, ?_⟩
    generalize v.getItem host site index = outcome at hitem
    cases hitem
    rfl
  refine ⟨fun index i hi hlow hhigh => hok fun sequence => ?_,
    fun index i hi hlow hhigh => hok fun sequence => ?_,
    fun index i hi houtside => herror fun sequence => ?_, fun index hi => ?_⟩
  · rw [place_of_whole hi hfit, if_pos ⟨hlow, hhigh⟩]
  · rw [place_of_whole hi hfit, if_neg (by omega), if_pos ⟨hlow, hhigh⟩, Int.add_comm]
  · rw [place_of_whole hi hfit, if_neg (by omega), if_neg (by omega)]
  · obtain ⟨sequence, hitem⟩ := herror fun _ => place_of_not_whole hi
    exact ⟨_, hitem⟩

/-! ## Membership -/

/-- What a sequence with elements `xs` tells of a value that `p` finds equal to elements. -/
structure Searched (host : Host) (site : Identity)
    (runBody : Expr → Table Value → Outcome Value) (v y : Value) (xs : List Value)
    (p : Value → Bool) : Prop where
  isIn : CompareOp.isIn.holds host site y v = .ok (xs.any p)
  count : v.send host site runBody "count" [y] = .ok (.int (xs.countP p))
  index : ∀ i, xs.findIdx? p = some i → v.send host site runBody "index" [y] = .ok (.int i)
  missing : xs.findIdx? p = none →
    ∃ message, v.send host site runBody "index" [y] = .error (.value message)
  isIn_iff_count : xs.any p = true ↔ 1 ≤ xs.countP p
  isIn_iff_index : xs.any p = true ↔ ∃ w, v.send host site runBody "index" [y] = .ok w

section Search

variable {y : Value} {p : Value → Bool}

theorem anyEqual_eq (hy : ∀ x ∈ xs, x.equals host site y = .ok (p x)) :
    anyEqual host site y xs = .ok (xs.any p) := by
  induction xs with
  | nil => rfl
  | cons x rest ih =>
    rw [anyEqual, hy x (by simp), ok_bind, ih fun w hw => hy w (by simp [hw]), List.any_cons]
    cases p x <;> rfl

theorem countEqual_eq (hy : ∀ x ∈ xs, x.equals host site y = .ok (p x)) :
    SequenceMethod.countEqual host site y xs = .ok (xs.countP p) := by
  induction xs with
  | nil => rfl
  | cons x rest ih =>
    rw [SequenceMethod.countEqual, hy x (by simp), ok_bind, ih fun w hw => hy w (by simp [hw]),
      List.countP_cons]
    cases p x <;> simp [Nat.add_comm]

theorem indexFrom_eq (hy : ∀ x ∈ xs, x.equals host site y = .ok (p x)) (start : Nat) :
    SequenceMethod.indexFrom host site y start xs = .ok ((xs.findIdx? p).map (· + start)) := by
  induction xs generalizing start with
  | nil => rfl
  | cons x rest ih =>
    rw [SequenceMethod.indexFrom, hy x (by simp), ok_bind, List.findIdx?_cons,
      ih fun w hw => hy w (by simp [hw])]
    cases p x with
    | true => simp
    | false => simp [Option.map_map, Function.comp_def, Nat.add_assoc, Nat.add_comm 1]

/-- The methods of sequences are called by their names, and look for the value that they get. -/
theorem send_value (host : Host) (site : Identity) (runBody : Expr → Table Value → Outcome Value)
    (hv : v.isSequence = true) (htext : v.text? = none) (m : SequenceMethod) (y : Value) :
    ∃ b : Bound, b.get "value" = y ∧
      v.send host site runBody m.name [y] = m.run host site v b := by
  obtain ⟨b, hb, hget⟩ : ∃ b, (Signature.ofNames ["value"]).bind m.name [y] [] = .ok b ∧
      b.get "value" = y := ⟨_, rfl, rfl⟩
  have hsend : v.send host site runBody m.name [y] =
      (Signature.ofNames ["value"]).bind m.name [y] [] >>= fun b => m.run host site v b := by
    cases v with
    | str s => cases htext
    | tuple => exact send_sequence rfl (Or.inl rfl) m [y]
    | list | nativeList => exact send_sequence rfl (Or.inr rfl) m [y]
    | _ => cases hv
  exact ⟨b, hget, hsend.trans (by rw [hb, ok_bind])⟩

theorem contains_of_iterate (hv : v.isSequence = true) (htext : v.text? = none)
    (h : v.iterate site = .ok xs) (y : Value) :
    v.contains host site y = anyEqual host site y xs := by
  cases v with
  | str s => cases htext
  | tuple | list | nativeList => cases h; rfl
  | _ => cases hv

theorem searched_of_iterate (hv : v.isSequence = true) (htext : v.text? = none)
    (h : v.iterate site = .ok xs) (hy : ∀ x ∈ xs, x.equals host site y = .ok (p x)) :
    v.Searched host site runBody y xs p := by
  have hcontains : v.contains host site y = .ok (xs.any p) := by
    rw [contains_of_iterate hv htext h, anyEqual_eq hy]
  have hcount : v.send host site runBody "count" [y] = .ok (.int (xs.countP p)) := by
    obtain ⟨b, hb, hsend⟩ := send_value host site runBody hv htext .count y
    refine hsend.trans ?_
    rw [SequenceMethod.run, h, ok_bind, hb, countEqual_eq hy]
    rfl
  obtain ⟨b, hb, hsend⟩ := send_value host site runBody hv htext .index y
  rw [SequenceMethod.run, h, ok_bind, hb, indexFrom_eq hy, ok_bind] at hsend
  have hindex (i : Nat) (hi : xs.findIdx? p = some i) :
      v.send host site runBody "index" [y] = .ok (.int i) := by
    rw [hi] at hsend
    exact hsend
  have hmissing (hnone : xs.findIdx? p = none) : v.send host site runBody "index" [y] =
      .error (.value (.notInSequence v.typeName)) := by
    rw [hnone] at hsend
    exact hsend
  refine ⟨hcontains, hcount, hindex, fun hnone => ⟨_, hmissing hnone⟩, ?_, ?_⟩
  · rw [List.any_eq_true, Nat.one_le_iff_ne_zero, ← Nat.pos_iff_ne_zero, List.countP_pos_iff]
  · rw [← List.findIdx?_isSome]
    cases hfound : xs.findIdx? p with
    | some i => exact iff_of_true rfl ⟨_, hindex i hfound⟩
    | none =>
      refine iff_of_false (by simp) fun ⟨w, hw⟩ => ?_
      rw [hmissing hfound] at hw
      cases hw

end Search

/-! ## Copies -/

/-- The lists and tuples that are made from a sequence with elements `xs`. -/
structure Converted (host : Host) (site : Identity) (runBody : Expr → Table Value → Outcome Value)
    (v : Value) (xs : List Value) : Prop where
  list : (cls .list).callWith host site runBody [v] [] = .ok (.list site xs)
  tuple : (cls .tuple).callWith host site runBody [v] [] = .ok (.tuple site xs)
  concat : v.classOf = .list → ∀ id, ∃ ys,
    v.binary host site .add (.list id []) = .ok (.list site ys) ∧ List.Forall₂ Twin ys xs

theorem converted_of_iterate (hv : v.isSequence = true) (h : v.iterate site = .ok xs) :
    v.Converted host site runBody xs := by
  refine ⟨?_, ?_, fun hclass id => ?_⟩
  · rw [callWith_list, h]
    rfl
  · rw [callWith_tuple, h]
    rfl
  · cases v with
    | str | tuple => cases hclass
    | list place items =>
      cases h
      refine ⟨xs ++ [], rfl, ?_⟩
      rw [List.append_nil]
      exact twins_refl xs
    | nativeList place items =>
      cases h
      refine ⟨ofItems (site.child 0) items ++ [], rfl, ?_⟩
      rw [List.append_nil]
      exact twins_ofItems _ _ items
    | _ => cases hv

/-- The interfaces of a sequence agree on its elements: `len` and the truth, the items by positive
and negative indices, `in`, `count` and `index` for values that can be compared, and the lists and
tuples that are made of it. A sequence in memory has fewer than `2 ^ 63` elements; only then is an
index beyond 64 bits outside of it. -/
theorem sequence_interfaces_agree (host : Host) (site : Identity)
    (runBody : Expr → Table Value → Outcome Value) {v : Value} (hv : v.isSequence = true) :
    ∃ xs, v.iterate site = .ok xs ∧ v.Measured host site runBody xs ∧
      (xs.length < 2 ^ 63 → v.Subscripted host site xs) ∧
      (v.text? = none → ∀ y p, (∀ x ∈ xs, x.equals host site y = .ok (p x)) →
        v.Searched host site runBody y xs p) ∧
      v.Converted host site runBody xs := by
  obtain ⟨xs, h⟩ := iterate_of_isSequence hv site
  exact ⟨xs, h, measured_of_iterate hv h, subscripted_of_iterate hv h,
    fun htext _ _ => searched_of_iterate hv htext h, converted_of_iterate hv h⟩

/-- A list from outside with one item twice. -/
def twice : Value :=
  .nativeList .origin [.bool true, .str "a", .bool true]

/-- The last item is reached by an index from the end, a text is no index, and an item that stands
twice is counted twice. -/
theorem sequence_interfaces_agree_twice :
    twice.isSequence = true ∧ (Value.int (-1)).whole? = some (-1) ∧
      (∃ w, twice.getItem .idle .origin (.int (-1)) = .ok w ∧ w.Twin (.bool true)) ∧
      (∃ message, twice.getItem .idle .origin (.str "a") = .error (.type message)) ∧
      twice.send .idle .origin (fun _ _ => .error .tooDeep) "count" [.bool true] = .ok (.int 2) ∧
      twice.send .idle .origin (fun _ _ => .error .tooDeep) "index" [.str "a"] = .ok (.int 1) := by
  obtain ⟨xs, h, _, hitems, hsearch, _⟩ := sequence_interfaces_agree .idle .origin
    (fun _ _ => .error .tooDeep) (v := twice) rfl
  obtain rfl : [.bool true, .str "a", .bool true] = xs := Except.ok.inj h
  have hitems := hitems (by decide)
  have hwhole : (Value.int (-1)).whole? = some (-1) := by
    rw [int, number, whole?, Numeric.ofFloat]
    exact Number.toInt?_ofInt (n := -1) (by decide)
  refine ⟨rfl, hwhole, ?_, hitems.kind _ rfl, ?_, ?_⟩
  · obtain ⟨w, x, hw, hx, htwin⟩ := hitems.back _ _ hwhole (by decide) (by decide)
    obtain rfl : .bool true = x := Option.some.inj hx
    exact ⟨w, hw, htwin⟩
  · refine (hsearch rfl (.bool true) (fun x => (x.text?).isNone) ?_).count
    simp only [List.forall_mem_cons]
    exact ⟨by with_unfolding_all rfl, by with_unfolding_all rfl, by with_unfolding_all rfl, by simp⟩
  · refine (hsearch rfl (.str "a") (fun x => (x.text?).isSome) ?_).index 1 rfl
    simp only [List.forall_mem_cons]
    exact ⟨by with_unfolding_all rfl, by with_unfolding_all rfl, by with_unfolding_all rfl, by simp⟩

end FilterLang.Value
