import FilterLang.Proofs.Value.Comparison
import Mathlib.Data.List.Forall2
/-!
Values that no operation tells apart.

Two values are alike when some relation holds of them that all operations respect: it
never makes a difference to a text, a length, a comparison or an error, and wherever an
operation gives values back, the relation holds of them again (`Bisimulation`). Containers
of one shape are alike (`alike_of_shape_eq`). For most operations that is what their shape
lemmas say; the ones here are about items, keys and sums.
-/

namespace FilterLang

open Fallible

namespace Value

/-- A key that a value can be asked for. Only dicts ask for a hash key. -/
def Takes (host : Host) (site : Identity) (container key : Value) : Prop :=
  container.classOf = .dict → ∃ hash, key.hashKey host site = .ok hash

/-- A relation that all operations respect. The other operand of a comparison or of an
operator is any built-in value, and so is what is sought among items. -/
structure Bisimulation (host : Host) (R : Value → Value → Prop) : Prop where
  typeName : ∀ {a b}, R a b → a.typeName = b.typeName
  isTruthy : ∀ {a b}, R a b → ∀ site, a.isTruthy host site = b.isTruthy host site
  len : ∀ {a b}, R a b → ∀ site, a.len host site = b.len host site
  repr : ∀ {a b}, R a b → ∀ site, a.repr host site = b.repr host site
  toText : ∀ {a b}, R a b → ∀ site, a.toText host site = b.toText host site
  hashKey : ∀ {a b}, R a b → ∀ site, a.hashKey host site = b.hashKey host site
  equals : ∀ {a b}, R a b → ∀ site v, v.isBuiltIn = true →
    a.equals host site v = b.equals host site v ∧ v.equals host site a = v.equals host site b
  compareWith : ∀ {a b}, R a b → ∀ site r v, v.isBuiltIn = true →
    a.compareWith host site r v = b.compareWith host site r v ∧
      v.compareWith host site r a = v.compareWith host site r b
  contains : ∀ {a b}, R a b → ∀ site v, (a.classOf ≠ .dict → v.isBuiltIn = true) →
    Takes host site a v → a.contains host site v = b.contains host site v
  iterate : ∀ {a b}, R a b → ∀ site,
    Related (List.Forall₂ R) (a.iterate site) (b.iterate site)
  lookup : ∀ {a b}, R a b → ∀ site k, Takes host site a k →
    Related (Option.Rel R) (a.lookup host site k) (b.lookup host site k)
  getItem : ∀ {a b}, R a b → ∀ site k, Takes host site a k →
    Related R (a.getItem host site k) (b.getItem host site k)
  binary : ∀ {a b}, R a b → ∀ site op v, v.isBuiltIn = true →
    Related R (a.binary host site op v) (b.binary host site op v) ∧
      Related R (v.binary host site op a) (v.binary host site op b)

/-- Values that no operation tells apart. -/
def Alike (host : Host) (a b : Value) : Prop :=
  ∃ R, Bisimulation host R ∧ R a b

/-! ## Items and keys of a shape -/

def isContainer : Value → Bool
  | tuple .. | list .. | dict .. | nativeList .. | nativeDict .. => true
  | _ => false

theorem shape_eq_self {v : Value} (h : v.isContainer = false) : v.shape = v := by
  cases v <;> first | rfl | cases h

@[simp] theorem isContainer_shape (v : Value) : v.shape.isContainer = v.isContainer := by
  cases v <;> rfl

theorem either_isContainer_shape {a b : Value} (h : a.isContainer = true ∨ b.isContainer = true) :
    a.shape.isContainer = true ∨ b.shape.isContainer = true := by
  rw [isContainer_shape, isContainer_shape]
  exact h

theorem iterate_shape (site : Identity) (v : Value) :
    (v.shape.iterate site).map (List.map shape) = (v.iterate site).map (List.map shape) := by
  cases v with
  | tuple id items | list id items =>
    simp only [shape, iterate, shapeItems_eq_map, Except.map, map_shape_shape]
  | dict id d =>
    simp only [shape_dict, iterate, Dict.keys, Dict.map, Except.map, List.map_map]
    exact congrArg Except.ok (List.map_congr_left fun e _ => shape_shape e.1)
  | nativeList id items =>
    simp only [shape, iterate, Json.shapeItems_eq_map, Except.map, map_shape_ofItems]
    rw [← map_shape_ofItems site items, map_shape_shape]
  | nativeDict id members =>
    simp only [shape, iterate, Dict.keys, Json.shapeMembers_eq_map, Except.map, List.map_map]
    refine congrArg Except.ok (List.map_congr_left fun m _ => ?_)
    obtain ⟨name, j⟩ := m
    rfl
  | _ => rfl

theorem pick_map {α β : Type} (f : α → β) (sequence : String) (items : List α) (index : Value) :
    pick sequence (items.map f) index = (pick sequence items index).map f := by
  rw [pick, pick, List.length_map]
  cases place sequence items.length index with
  | error e => rfl
  | ok i =>
    simp only [ok_bind, List.getElem?_map]
    cases items[i]? <;> rfl

theorem lookup_shape_key (host : Host) (site : Identity) (v k : Value) :
    v.shape.lookup host site k.shape = v.shape.lookup host site k := by
  cases v <;> first | rfl | (simp only [shape, lookup, Dict.get, hashKey_shape])

/-- A dict of either form gives what it has under a key, and else an error that names the
key. -/
theorem getItem_dict {v : Value} (hv : v.isContainer = true) (hdict : v.classOf = .dict)
    (host : Host) (site : Identity) (k : Value) :
    v.getItem host site k = v.lookup host site k >>= fun found =>
      match found with
      | some w => .ok w
      | none =>
        match k.repr host site with
        | .ok text => .error (.key text)
        | .error _ => .error (.key k.typeName) := by
  cases v with
  | dict id entries => rfl
  | nativeDict id members => rfl
  | tuple | list | nativeList => cases hdict
  | _ => cases hv

theorem lookup_shape_of_takes {host : Host} {site : Identity} {v k : Value}
    (hk : Takes host site v k) :
    v.shape.lookup host site k = (v.lookup host site k).map (Option.map shape) := by
  by_cases hdict : v.classOf = .dict
  · -- an unhashable key is an error of one form and missing from the other
    obtain ⟨hash, hhash⟩ := hk hdict
    rw [← lookup_shape_key, lookup_shape v hhash]
  · cases v with
    | dict | nativeDict => exact absurd rfl hdict
    | _ => rfl

theorem getItem_shape {host : Host} {site : Identity} {v k : Value} (hv : v.isContainer = true)
    (hk : Takes host site v k) :
    (v.shape.getItem host site k).map shape = (v.getItem host site k).map shape := by
  cases v with
  | tuple id items | list id items =>
    simp only [shape, getItem, shapeItems_eq_map, pick_map]
    cases pick _ items k with
    | error e => rfl
    | ok w => exact congrArg Except.ok (shape_shape w)
  | nativeList id items =>
    simp only [shape, getItem, Json.shapeItems_eq_map, pick_map]
    cases pick _ items k with
    | error e => rfl
    | ok j => exact congrArg Except.ok ((shape_json j).trans (shape_ofJson site j).symm)
  | dict id entries | nativeDict id members =>
    rw [getItem_dict rfl rfl, getItem_dict rfl rfl, lookup_shape_of_takes hk]
    cases lookup host site _ k with
    | error e => rfl
    | ok found =>
      cases found with
      | none => cases hrepr : k.repr host site <;> simp [Except.map]
      | some w => exact congrArg Except.ok (shape_shape w)
  | _ => cases hv

theorem anyEqual_shape {host : Host} {site : Identity} {item : Value}
    (hitem : item.isBuiltIn = true) {items : List Value}
    (h : ∀ v ∈ items, v.isBuiltIn = true) :
    anyEqual host site item.shape (items.map shape) = anyEqual host site item items := by
  induction items with
  | nil => rfl
  | cons v rest ih =>
    rw [List.map_cons, anyEqual, anyEqual, equals_shape host site (h v (by simp)) hitem,
      ih fun w hw => h w (by simp [hw])]

/-- An item is in a container when its shape is in the shape of the container. -/
theorem contains_shape {host : Host} {site : Identity} {v item : Value}
    (hcontainer : v.isContainer = true) (hv : v.isBuiltIn = true)
    (hitem : v.classOf ≠ .dict → item.isBuiltIn = true) (hk : Takes host site v item) :
    v.shape.contains host site item.shape = v.contains host site item := by
  cases v with
  | tuple id items | list id items =>
    simp only [shape, contains, shapeItems_eq_map]
    exact anyEqual_shape (hitem (by simp [classOf])) fun w hw => isBuiltIn_of_mem hv hw
  | nativeList id items =>
    simp only [shape, contains, Json.shapeItems_eq_map]
    rw [← map_shape_ofItems site items]
    exact anyEqual_shape (hitem (by simp [classOf])) (isBuiltIn_of_listItems? hv rfl)
  | dict id d =>
    -- the shape has the same index
    rw [shape_dict, contains, contains, Dict.containsKey, Dict.containsKey, hashKey_shape]
    rfl
  | nativeDict id members =>
    have hshape : (nativeDict id members).shape =
        .dict .origin (memberRecords (fun m => m.2.shape) members).dict := shape_object members
    have hlookup := lookup_shape_of_takes hk
    rw [hshape] at hlookup
    rw [hshape, (Recorded.dict _ _).contains, (Recorded.nativeDict id members).contains,
      ← hshape, lookup_shape_key, hshape, hlookup]
    cases lookup host site _ item with
    | error e => rfl
    | ok found => cases found <;> rfl
  | _ => cases hcontainer

/-! ## Operators on shapes -/

theorem map_repeatItems (items : List Value) (n : Nat) :
    (repeatItems items n).map shape = repeatItems (items.map shape) n := by
  rw [repeatItems, repeatItems, List.map_flatten, List.map_replicate]

theorem repeated_shape (site : Identity) (v : Value) (count : Float) :
    (repeated site v.shape count).map shape = (repeated site v count).map shape := by
  rw [repeated.eq_def, repeated.eq_def]
  cases Number.integral? count with
  | none => rfl
  | some n =>
    cases v with
    | tuple id items =>
      simp only [shape, Except.map, shapeItems_eq_map, map_repeatItems, map_shape_shape]
    | list id items =>
      simp only [shape, Except.map, listItems?, Option.getD_some, shapeItems_eq_map,
        map_repeatItems, map_shape_shape]
    | nativeList id items =>
      simp only [shape, Except.map, listItems?, Option.getD_some, Json.shapeItems_eq_map,
        shapeItems_eq_map, map_repeatItems, map_shape_ofItems]
      rw [← map_shape_ofItems site items, map_shape_shape]
    | _ => rfl

/-- Only sums and repetitions look into containers. -/
theorem nativeArith_container {site : Identity} {op : BinaryOp} {a b : Value}
    (h : a.isContainer = true ∨ b.isContainer = true) (hadd : op ≠ .add) (hmul : op ≠ .mul) :
    nativeArith site op a b = .ok none := by
  rcases h with h | h
  · cases a <;> cases h <;> cases op <;>
      first | rfl | exact absurd rfl hadd | exact absurd rfl hmul
  · cases b <;> cases h <;> cases op <;>
      first | exact absurd rfl hadd | exact absurd rfl hmul | (cases a <;> rfl)

/-- The sum of two lists, of either form. -/
theorem nativeArith_add {site : Identity} {a b : Value}
    (h : a.isContainer = true ∨ b.isContainer = true) (ha : ∀ id items, a ≠ .tuple id items) :
    nativeArith site .add a b =
      match a.listItems? (site.child 0), b.listItems? (site.child 1) with
      | some x, some y => .ok (some (.list site (x ++ y)))
      | _, _ => .ok none := by
  cases a with
  | tuple id items => exact absurd rfl (ha id items)
  | float | str => cases b <;> first | rfl | (rcases h with h | h <;> cases h)
  | _ => rfl

theorem nativeArith_add_shape {site : Identity} {a b : Value}
    (h : a.isContainer = true ∨ b.isContainer = true) :
    (nativeArith site .add a.shape b.shape).map (Option.map shape) =
      (nativeArith site .add a b).map (Option.map shape) := by
  have hshape := either_isContainer_shape h
  by_cases ha : ∃ id items, a = .tuple id items
  · obtain ⟨id, items, rfl⟩ := ha
    cases b with
    | tuple id' items' =>
      simp only [shape, nativeArith, Except.map, Option.map_some, shapeItems_eq_map,
        List.map_append, map_shape_shape]
    | _ => rfl
  · have hne : ∀ id items, a ≠ .tuple id items := fun id items heq => ha ⟨id, items, heq⟩
    have hne' : ∀ id items, a.shape ≠ .tuple id items := by
      intro id items heq
      cases a with
      | tuple id' items' => exact hne id' items' rfl
      | _ => cases heq
    rw [nativeArith_add h hne, nativeArith_add hshape hne',
      listItems?_shape (site.child 0) (site.child 0) a,
      listItems?_shape (site.child 1) (site.child 1) b]
    cases a.listItems? (site.child 0) with
    | none => rfl
    | some x =>
      cases b.listItems? (site.child 1) with
      | none => rfl
      | some y =>
        simp only [Option.map_some, Except.map, shape, shapeItems_eq_map, List.map_append,
          map_shape_shape]

/-- A sequence is repeated by a number on its right. -/
theorem nativeArith_mul {site : Identity} {a b : Value}
    (h : a.isContainer = true ∨ b.isContainer = true) :
    nativeArith site .mul a b =
      match b with
      | float n => if a.isSequence then (repeated site a n.float).map some else .ok none
      | _ => .ok none := by
  cases b with
  | float n => cases a <;> first | rfl | (rcases h with h | h <;> cases h)
  | _ => cases a <;> rfl

theorem map_some_map_shape (x : Outcome Value) :
    (x.map some).map (Option.map shape) = (x.map shape).map some := by
  cases x <;> rfl

theorem nativeArith_mul_shape {site : Identity} {a b : Value}
    (h : a.isContainer = true ∨ b.isContainer = true) :
    (nativeArith site .mul a.shape b.shape).map (Option.map shape) =
      (nativeArith site .mul a b).map (Option.map shape) := by
  have hshape := either_isContainer_shape h
  rw [nativeArith_mul h, nativeArith_mul hshape]
  cases b with
  | float n =>
    simp only [shape, isSequence_shape]
    by_cases ha : a.isSequence = true
    · rw [if_pos ha, if_pos ha, map_some_map_shape, map_some_map_shape, repeated_shape]
    · rw [if_neg ha, if_neg ha]
  | _ => rfl

theorem nativeArith_shape (site : Identity) (op : BinaryOp) (a b : Value) :
    (nativeArith site op a.shape b.shape).map (Option.map shape) =
      (nativeArith site op a b).map (Option.map shape) := by
  by_cases h : a.isContainer = true ∨ b.isContainer = true
  · -- of the operators only sums and repetitions take containers
    by_cases hadd : op = .add
    · rw [hadd]
      exact nativeArith_add_shape h
    by_cases hmul : op = .mul
    · rw [hmul]
      exact nativeArith_mul_shape h
    have hshape := either_isContainer_shape h
    rw [nativeArith_container h hadd hmul, nativeArith_container hshape hadd hmul]
  · -- without a container both operands are their own shapes
    rw [not_or, Bool.not_eq_true, Bool.not_eq_true] at h
    rw [shape_eq_self h.1, shape_eq_self h.2]

theorem nativeReflected_shape (site : Identity) (op : BinaryOp) (a b : Value) :
    (nativeReflected site op a.shape b.shape).map (Option.map shape) =
      (nativeReflected site op a b).map (Option.map shape) := by
  rw [nativeReflected.eq_def, nativeReflected.eq_def]
  cases a with
  | float n =>
    cases op with
    | mul =>
      simp only [shape, isSequence_shape]
      by_cases hb : b.isSequence = true
      · rw [if_pos hb, if_pos hb, map_some_map_shape, map_some_map_shape, repeated_shape]
      · rw [if_neg hb, if_neg hb]
    | _ => rfl
  | _ => cases op <;> rfl

/-! ## What operations give back is built-in -/

mutual

theorem isBuiltIn_of_isHashable : (v : Value) → v.isHashable = true → v.isBuiltIn = true
  | tuple _ items, h => allBuiltIn_of_allHashable items h
  | null, _ | notImplemented, _ | bool _, _ | float _, _ | str _, _ | function _, _ | cls _, _
  | lambda .., _ | method .., _ | temporal .., _ => rfl

theorem allBuiltIn_of_allHashable : (items : List Value) → allHashable items = true →
    allBuiltIn items = true
  | [], _ => rfl
  | v :: rest, h => by
    obtain ⟨hv, hrest⟩ := (Bool.and_eq_true _ _).mp h
    rw [allBuiltIn, isBuiltIn_of_isHashable v hv, allBuiltIn_of_allHashable rest hrest]
    rfl

end

theorem isBuiltIn_of_iterate {site : Identity} {v : Value} {items : List Value}
    (hcontainer : v.isContainer = true) (hv : v.isBuiltIn = true)
    (h : v.iterate site = .ok items) : ∀ w ∈ items, w.isBuiltIn = true := by
  cases v with
  | tuple id xs | list id xs =>
    cases h
    exact fun w hw => isBuiltIn_of_mem hv hw
  | nativeList id xs =>
    have hitems : (nativeList id xs).listItems? site = some (ofItems site xs) := rfl
    cases h
    exact isBuiltIn_of_listItems? hv hitems
  | dict id entries =>
    cases h
    intro w hw
    obtain ⟨e, he, rfl⟩ := List.mem_map.mp hw
    exact isBuiltIn_of_isHashable e.1 (entryBuiltIn_of_mem hv he).1
  | nativeDict id members =>
    cases h
    intro w hw
    obtain ⟨m, _, rfl⟩ := List.mem_map.mp hw
    rfl
  | _ => cases hcontainer

theorem mem_of_pick {α : Type} {sequence : String} {items : List α} {index : Value} {a : α}
    (h : pick sequence items index = .ok a) : a ∈ items := by
  obtain ⟨i, _, h⟩ := bind_eq_ok.mp h
  cases hi : items[i]? with
  | none => rw [hi] at h; cases h
  | some b =>
    rw [hi] at h
    cases h
    exact List.mem_of_getElem? hi

theorem isBuiltIn_of_getItem {host : Host} {site : Identity} {v k w : Value}
    (hcontainer : v.isContainer = true) (hv : v.isBuiltIn = true)
    (h : v.getItem host site k = .ok w) : w.isBuiltIn = true := by
  cases v with
  | tuple id items | list id items => exact isBuiltIn_of_mem hv (mem_of_pick h)
  | nativeList id items =>
    obtain ⟨j, _, h⟩ := bind_eq_ok.mp h
    cases h
    exact isBuiltIn_ofJson site j
  | dict id entries | nativeDict id members =>
    rw [getItem_dict rfl rfl] at h
    obtain ⟨found, hfound, h⟩ := bind_eq_ok.mp h
    cases found with
    | none => cases hrepr : k.repr host site <;> rw [hrepr] at h <;> cases h
    | some w' =>
      cases h
      exact isBuiltIn_of_lookup hv hfound
  | _ => cases hcontainer

theorem isBuiltIn_repeatItems {items : List Value} (h : ∀ w ∈ items, w.isBuiltIn = true)
    (n : Nat) : allBuiltIn (repeatItems items n) = true := by
  refine allBuiltIn_of_forall fun w hw => ?_
  obtain ⟨part, hpart, hw⟩ := List.mem_flatten.mp hw
  rw [List.eq_of_mem_replicate hpart] at hw
  exact h w hw

theorem isBuiltIn_of_repeated {site : Identity} {v w : Value} {count : Float}
    (hv : v.isBuiltIn = true) (h : repeated site v count = .ok w) : w.isBuiltIn = true := by
  have hitems : ∀ x ∈ (v.listItems? site).getD [], x.isBuiltIn = true := by
    cases hi : v.listItems? site with
    | none => simp
    | some items => exact isBuiltIn_of_listItems? hv hi
  rw [repeated.eq_def] at h
  cases hcount : Number.integral? count with
  | none => rw [hcount] at h; cases h
  | some n =>
    rw [hcount] at h
    cases v with
    | str s => cases h; rfl
    | tuple id items =>
      cases h
      exact isBuiltIn_repeatItems (fun x hx => isBuiltIn_of_mem hv hx) n.toNat
    | _ =>
      cases h
      exact isBuiltIn_repeatItems hitems n.toNat

theorem isBuiltIn_append {xs ys : List Value} (hxs : ∀ x ∈ xs, x.isBuiltIn = true)
    (hys : ∀ y ∈ ys, y.isBuiltIn = true) : allBuiltIn (xs ++ ys) = true := by
  refine allBuiltIn_of_forall fun w hw => ?_
  rcases List.mem_append.mp hw with hw | hw
  · exact hxs w hw
  · exact hys w hw

theorem isBuiltIn_of_add {site : Identity} {a b w : Value}
    (hcontainer : a.isContainer = true ∨ b.isContainer = true) (ha : a.isBuiltIn = true)
    (hb : b.isBuiltIn = true) (h : nativeArith site .add a b = .ok (some w)) :
    w.isBuiltIn = true := by
  by_cases htuple : ∃ id items, a = .tuple id items
  · obtain ⟨id, xs, rfl⟩ := htuple
    cases b with
    | tuple id' ys =>
      cases h
      exact isBuiltIn_append (fun x hx => isBuiltIn_of_mem ha hx) fun y hy => isBuiltIn_of_mem hb hy
    | _ => cases h
  · rw [nativeArith_add hcontainer fun id items heq => htuple ⟨id, items, heq⟩] at h
    cases hx : a.listItems? (site.child 0) with
    | none => rw [hx] at h; cases h
    | some xs =>
      cases hy : b.listItems? (site.child 1) with
      | none => rw [hx, hy] at h; cases h
      | some ys =>
        rw [hx, hy] at h
        cases h
        exact isBuiltIn_append (isBuiltIn_of_listItems? ha hx) (isBuiltIn_of_listItems? hb hy)

theorem isBuiltIn_of_map_some {site : Identity} {v w : Value} {count : Float}
    (hv : v.isBuiltIn = true)
    (h : (if v.isSequence then (repeated site v count).map some else .ok none) = .ok (some w)) :
    w.isBuiltIn = true := by
  by_cases hs : v.isSequence = true
  · rw [if_pos hs] at h
    cases hr : repeated site v count with
    | error e => rw [hr] at h; cases h
    | ok r =>
      rw [hr] at h
      cases h
      exact isBuiltIn_of_repeated hv hr
  · rw [if_neg hs] at h
    cases h

theorem isBuiltIn_of_nativeArith {site : Identity} {op : BinaryOp} {a b w : Value}
    (hcontainer : a.isContainer = true ∨ b.isContainer = true) (ha : a.isBuiltIn = true)
    (hb : b.isBuiltIn = true) (h : nativeArith site op a b = .ok (some w)) :
    w.isBuiltIn = true := by
  by_cases hadd : op = .add
  · subst hadd
    exact isBuiltIn_of_add hcontainer ha hb h
  by_cases hmul : op = .mul
  · subst hmul
    rw [nativeArith_mul hcontainer] at h
    cases b with
    | float n => exact isBuiltIn_of_map_some ha h
    | _ => cases h
  rw [nativeArith_container hcontainer hadd hmul] at h
  cases h

theorem isBuiltIn_of_nativeReflected {site : Identity} {op : BinaryOp} {a b w : Value}
    (hb : b.isBuiltIn = true) (h : nativeReflected site op a b = .ok (some w)) :
    w.isBuiltIn = true := by
  rw [nativeReflected.eq_def] at h
  cases op with
  | mul =>
    cases a with
    | float n => exact isBuiltIn_of_map_some hb h
    | _ => cases h
  | _ => cases h

/-! ## Values of one shape -/

/-- Containers of one shape, and every value with itself. -/
def SameShape (a b : Value) : Prop :=
  a = b ∨ (a.shape = b.shape ∧ a.isBuiltIn = true ∧ a.isContainer = true)

theorem isContainer_of_shape_eq {a b : Value} (h : a.shape = b.shape) :
    a.isContainer = b.isContainer := by
  rw [← isContainer_shape a, h, isContainer_shape]

theorem eq_of_shape_eq {a b : Value} (h : a.shape = b.shape) (ha : a.isContainer = false) :
    a = b := by
  have hb : b.isContainer = false := (isContainer_of_shape_eq h).symm.trans ha
  rw [← shape_eq_self ha, h, shape_eq_self hb]

theorem sameShape_of_eq {a b : Value} (h : a.shape = b.shape) (ha : a.isBuiltIn = true) :
    SameShape a b := by
  by_cases hc : a.isContainer = true
  · exact Or.inr ⟨h, ha, hc⟩
  · exact Or.inl (eq_of_shape_eq h (by simpa using hc))

theorem sameShape_refl (a : Value) : SameShape a a :=
  Or.inl rfl

theorem forall₂_sameShape {xs ys : List Value} (h : xs.map shape = ys.map shape)
    (hxs : ∀ x ∈ xs, x.isBuiltIn = true) : List.Forall₂ SameShape xs ys := by
  induction xs generalizing ys with
  | nil =>
    cases ys with
    | nil => exact .nil
    | cons y ys => cases h
  | cons x xs ih =>
    cases ys with
    | nil => cases h
    | cons y ys =>
      obtain ⟨hx, hxs'⟩ := List.cons.inj h
      exact .cons (sameShape_of_eq hx (hxs x (by simp))) (ih hxs' fun w hw => hxs w (by simp [hw]))

/-- Outcomes of one shape are related when they are built-in. -/
theorem related_of_map_shape {x y : Outcome Value} (h : x.map shape = y.map shape)
    (hx : ∀ w, x = .ok w → w.isBuiltIn = true) : Related SameShape x y :=
  (Related.of_map_eq h).imp fun w _ hw => sameShape_of_eq hw.2 (hx w hw.1)

/-! ## Operators in turn -/

/-- An answer if there is one, and else what comes next. -/
def answerOr (answer : Outcome (Option Value)) (next : Outcome Value) : Outcome Value :=
  answer >>= fun found => match found with
    | some r => .ok r
    | none => next

/-- An operator asks the kinds, the left operand, the kind of the right one, and the right
operand, in turn. -/
theorem binary_eq (host : Host) (site : Identity) (op : BinaryOp) (a b : Value) :
    binary host site op a b =
      answerOr (nativeArith site op a b)
        (answerOr (askOperator host site a op.method b)
          (answerOr (nativeReflected site op a b)
            (answerOr (askOperator host site b op.reflected a)
              (.error (.type (.operands op.text a.typeName b.typeName)))))) := rfl

theorem related_answerOr {x y : Outcome (Option Value)} {n m : Outcome Value}
    (h : x.map (Option.map shape) = y.map (Option.map shape))
    (hx : ∀ w, x = .ok (some w) → w.isBuiltIn = true) (hnext : Related SameShape n m) :
    Related SameShape (answerOr x n) (answerOr y m) := by
  refine (Related.of_map_eq h).bind fun found found' hfound => ?_
  obtain ⟨hok, hshape⟩ := hfound
  cases found with
  | none =>
    cases found' with
    | none => exact hnext
    | some w' => cases hshape
  | some w =>
    cases found' with
    | none => cases hshape
    | some w' => exact .succeeded (sameShape_of_eq (Option.some.inj hshape) (hx w hok))

theorem related_answerOr_refl (x : Outcome (Option Value)) {n m : Outcome Value}
    (hnext : Related SameShape n m) : Related SameShape (answerOr x n) (answerOr x m) := by
  cases x with
  | error e => exact .failed e
  | ok found =>
    cases found with
    | none => exact hnext
    | some w => exact .succeeded (sameShape_refl w)

/-- An operator does not tell operands from others of their shapes. -/
theorem binary_related {host : Host} {site : Identity} {op : BinaryOp} {a a' b b' : Value}
    (hshape : a.shape = a'.shape) (hshape' : b.shape = b'.shape) (ha : a.isBuiltIn = true)
    (hb : b.isBuiltIn = true) :
    Related SameShape (binary host site op a b) (binary host site op a' b') := by
  by_cases hc : a.isContainer = true ∨ b.isContainer = true
  · have ha' : a'.isBuiltIn = true := isBuiltIn_of_shape_eq hshape ha
    have hb' : b'.isBuiltIn = true := isBuiltIn_of_shape_eq hshape' hb
    have hleft : askOperator host site a op.method b = askOperator host site a' op.method b' := by
      rw [← askOperator_shape host site ha, hshape, hshape', askOperator_shape host site ha']
    have hright :
        askOperator host site b op.reflected a = askOperator host site b' op.reflected a' := by
      rw [← askOperator_shape host site hb, hshape, hshape', askOperator_shape host site hb']
    have hnames : a.typeName = a'.typeName ∧ b.typeName = b'.typeName := by
      rw [← typeName_shape a, ← typeName_shape b, hshape, hshape', typeName_shape, typeName_shape]
      exact ⟨rfl, rfl⟩
    rw [binary_eq, binary_eq, hleft, hright, hnames.1, hnames.2]
    -- methods answer equal values alike; only the kinds themselves look at the forms
    refine related_answerOr ?_ (fun w => isBuiltIn_of_nativeArith hc ha hb)
      (related_answerOr_refl _ (related_answerOr ?_ (fun w => isBuiltIn_of_nativeReflected hb)
        (related_answerOr_refl _ (.failed _))))
    · rw [← nativeArith_shape, hshape, hshape', nativeArith_shape]
    · rw [← nativeReflected_shape, hshape, hshape', nativeReflected_shape]
  · rw [not_or, Bool.not_eq_true, Bool.not_eq_true] at hc
    rw [eq_of_shape_eq hshape hc.1, eq_of_shape_eq hshape' hc.2]
    exact Related.refl sameShape_refl _

/-! ## Values of one shape are alike -/

namespace SameShape

variable {host : Host} {a b : Value}

/-- What is decided by the shape is the same. -/
theorem observe {α : Type} (h : SameShape a b) (f : Value → α) (hf : ∀ v, f v.shape = f v) :
    f a = f b := by
  rcases h with rfl | ⟨hshape, -, -⟩
  · rfl
  · rw [← hf a, hshape, hf b]

theorem takes (h : SameShape a b) {site : Identity} {k : Value} (hk : Takes host site a k) :
    Takes host site b k := by
  intro hb
  refine hk ?_
  rw [h.observe classOf classOf_shape, hb]

theorem equals (h : SameShape a b) (site : Identity) {v : Value} (hv : v.isBuiltIn = true) :
    a.equals host site v = b.equals host site v ∧ v.equals host site a = v.equals host site b := by
  rcases h with rfl | ⟨hshape, ha, -⟩
  · exact ⟨rfl, rfl⟩
  · have hb : b.isBuiltIn = true := isBuiltIn_of_shape_eq hshape ha
    constructor
    · rw [← equals_shape host site ha hv, hshape, equals_shape host site hb hv]
    · rw [← equals_shape host site hv ha, hshape, equals_shape host site hv hb]

theorem compareWith (h : SameShape a b) (site : Identity) (r : Relation) {v : Value}
    (hv : v.isBuiltIn = true) :
    a.compareWith host site r v = b.compareWith host site r v ∧
      v.compareWith host site r a = v.compareWith host site r b := by
  rcases h with rfl | ⟨hshape, ha, -⟩
  · exact ⟨rfl, rfl⟩
  · have hb : b.isBuiltIn = true := isBuiltIn_of_shape_eq hshape ha
    constructor
    · rw [← compareWith_shape host site r a v ha hv, hshape,
        compareWith_shape host site r b v hb hv]
    · rw [← compareWith_shape host site r v a hv ha, hshape,
        compareWith_shape host site r v b hv hb]

theorem contains (h : SameShape a b) {site : Identity} {v : Value}
    (hv : a.classOf ≠ .dict → v.isBuiltIn = true) (hk : Takes host site a v) :
    a.contains host site v = b.contains host site v := by
  have hk' := h.takes hk
  have hv' : b.classOf ≠ .dict → v.isBuiltIn = true := by
    rw [← h.observe classOf classOf_shape]
    exact hv
  rcases h with rfl | ⟨hshape, ha, hc⟩
  · rfl
  · have hb : b.isBuiltIn = true := isBuiltIn_of_shape_eq hshape ha
    have hc' : b.isContainer = true := (isContainer_of_shape_eq hshape).symm.trans hc
    rw [← contains_shape hc ha hv hk, hshape, contains_shape hc' hb hv' hk']

theorem iterate (h : SameShape a b) (site : Identity) :
    Related (List.Forall₂ SameShape) (a.iterate site) (b.iterate site) := by
  rcases h with rfl | ⟨hshape, ha, hc⟩
  · exact Related.refl (fun items => List.forall₂_same.mpr fun v _ => sameShape_refl v) _
  · have hitems : (a.iterate site).map (List.map shape) = (b.iterate site).map (List.map shape) := by
      rw [← iterate_shape, hshape, iterate_shape]
    exact (Related.of_map_eq hitems).imp fun xs ys hxs =>
      forall₂_sameShape hxs.2 (isBuiltIn_of_iterate hc ha hxs.1)

theorem lookup (h : SameShape a b) {site : Identity} {k : Value} (hk : Takes host site a k) :
    Related (Option.Rel SameShape) (a.lookup host site k) (b.lookup host site k) := by
  have hk' := h.takes hk
  rcases h with rfl | ⟨hshape, ha, -⟩
  · refine Related.refl (fun found => ?_) _
    cases found with
    | none => exact .none
    | some w => exact .some (sameShape_refl w)
  · have hfound : (a.lookup host site k).map (Option.map shape) =
        (b.lookup host site k).map (Option.map shape) := by
      rw [← lookup_shape_of_takes hk, hshape, lookup_shape_of_takes hk']
    refine (Related.of_map_eq hfound).imp fun found found' hf => ?_
    cases found with
    | none =>
      cases found' with
      | none => exact .none
      | some w' => cases hf.2
    | some w =>
      cases found' with
      | none => cases hf.2
      | some w' =>
        exact .some (sameShape_of_eq (Option.some.inj hf.2) (isBuiltIn_of_lookup ha hf.1))

theorem getItem (h : SameShape a b) {site : Identity} {k : Value} (hk : Takes host site a k) :
    Related SameShape (a.getItem host site k) (b.getItem host site k) := by
  have hk' := h.takes hk
  rcases h with rfl | ⟨hshape, ha, hc⟩
  · exact Related.refl sameShape_refl _
  · have hc' : b.isContainer = true := (isContainer_of_shape_eq hshape).symm.trans hc
    refine related_of_map_shape ?_ fun w => isBuiltIn_of_getItem hc ha
    rw [← getItem_shape hc hk, hshape, getItem_shape hc' hk']

theorem binary (h : SameShape a b) (site : Identity) (op : BinaryOp) {v : Value}
    (hv : v.isBuiltIn = true) :
    Related SameShape (a.binary host site op v) (b.binary host site op v) ∧
      Related SameShape (v.binary host site op a) (v.binary host site op b) := by
  rcases h with rfl | ⟨hshape, ha, -⟩
  · exact ⟨Related.refl sameShape_refl _, Related.refl sameShape_refl _⟩
  · exact ⟨binary_related hshape rfl ha hv, binary_related rfl hshape hv ha⟩

end SameShape

/-- Every operation respects shapes. -/
theorem bisimulation_sameShape (host : Host) : Bisimulation host SameShape where
  typeName h := h.observe typeName typeName_shape
  isTruthy h site := h.observe (isTruthy host site) (isTruthy_shape host site)
  len h site := h.observe (len host site) (len_shape host site)
  repr h site := h.observe (repr host site) (repr_shape host site)
  toText h site := h.observe (toText host site) (toText_shape host site)
  hashKey h site := h.observe (hashKey host site) (hashKey_shape host site)
  equals h site _ hv := h.equals site hv
  compareWith h site r _ hv := h.compareWith site r hv
  contains h _ _ hv hk := h.contains hv hk
  iterate h site := h.iterate site
  lookup h _ _ hk := h.lookup hk
  getItem h _ _ hk := h.getItem hk
  binary h site op _ hv := h.binary site op hv

/-- Built-in values of one shape are alike. -/
theorem alike_of_shape_eq {a b : Value} (host : Host) (h : a.shape = b.shape)
    (ha : a.isBuiltIn = true) : Alike host a b :=
  ⟨SameShape, bisimulation_sameShape host, sameShape_of_eq h ha⟩

/-! ## Paths of subscripts -/

/-- Follows subscripts, each taken at a place. -/
def subscripts (host : Host) : List (Identity × Value) → Value → Outcome Value
  | [], v => .ok v
  | (site, k) :: rest, v => v.getItem host site k >>= subscripts host rest

/-- Values that are alike lead to values that are alike, along any path of hashable
subscripts. -/
theorem Alike.subscripts {host : Host} {a b : Value} (h : Alike host a b)
    {path : List (Identity × Value)}
    (hpath : ∀ s ∈ path, ∃ hash, s.2.hashKey host s.1 = .ok hash) :
    Related (Alike host) (subscripts host path a) (subscripts host path b) := by
  obtain ⟨R, hR, hab⟩ := h
  induction path generalizing a b with
  | nil => exact .succeeded ⟨R, hR, hab⟩
  | cons s rest ih =>
    obtain ⟨site, k⟩ := s
    have hk : Takes host site a k := fun _ => hpath (site, k) (by simp)
    exact (hR.getItem hab site k hk).bind fun a' b' hab' =>
      ih (fun s hs => hpath s (by simp [hs])) hab'

end Value

end FilterLang
